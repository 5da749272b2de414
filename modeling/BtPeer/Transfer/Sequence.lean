import BtPeer.Transfer.Pacing

/-
  The sequence numbers of one upload stay in order and within
  the chunk, and every array access is in bounds, whatever is
  acknowledged and whenever the timers are checked.

  Key definitions include:
    * `UlEvent.indices`
    * `UlRun.Safe`

  Key theorems include:
    * `apply_frame`
    * `sequence_safe`
    * `window_wraps`
-/

------------------------------------------------------------
-- Array Indices
------------------------------------------------------------

namespace BtPeer

/-
  The index that `ul_handle_ack` uses into `ack_cnt` and
  `seq_ts`, if it takes the number at all.
-/
def ackIndices
    (ul : Upload)
    (ack : Word) : List Nat :=
  if ul.finished then []
  else if ack = 0 then []
  else if ul.maxPktSent < ack ∨ ack < ul.lastPktAcked then []
  else [ack.toNat]

/- The timer that `ul_check_timeout` reads. -/
def checkIndices (ul : Upload) : List Nat :=
  if ul.finished then []
  else [(ul.lastPktAcked + 1).toNat]

/-
  Every index that an event uses into `ack_cnt`, `seq_ts` and
  `seq_timeout`: its own, and those of the segments that
  `ul_send` sends.
-/
def UlEvent.indices
    (e : UlEvent)
    (ul : Upload) : List Nat :=
  match e with
  | .ack _ _ num =>
      ackIndices ul num ++
        (e.sends ul).map (fun t => t.seq.toNat)
  | .check _ _ =>
      checkIndices ul ++
        (e.sends ul).map (fun t => t.seq.toNat)

theorem newAck_ackCnt
    (ul : Upload)
    (ack : Word) :
    (newAck ul ack).ackCnt = ul.ackCnt := by
  unfold newAck
  split
  · rfl
  · simp only [ackStatus]
    split
    case h_3 => split <;> rfl
    case h_5 => split <;> rfl
    all_goals rfl

/- An acknowledgement counts at its own number only. -/
theorem ulHandleAck_ackCnt
    (now : Word)
    (ul : Upload)
    (ack : Word)
    {i : Nat}
    (hOut : i ∉ ackIndices ul ack) :
    (ulHandleAck now ul ack).ackCnt i = ul.ackCnt i := by
  unfold ackIndices at hOut
  unfold ulHandleAck
  split
  · rfl
  · rename_i hOpen
    rw [if_neg hOpen] at hOut
    split
    · rfl
    · rename_i hPos
      rw [if_neg hPos] at hOut
      split
      · rfl
      · rename_i hValid
        rw [if_neg hValid, List.mem_singleton] at hOut
        have hSample :
            (sampleRtt now ul ack).ackCnt = ul.ackCnt := by
          unfold sampleRtt
          split <;> rfl
        have hAllow :
            (allowDup (sampleRtt now ul ack) ack).ackCnt i =
              ul.ackCnt i := by
          unfold allowDup
          split
          · exact (Function.update_of_ne hOut _ _).trans
              (congrFun hSample i)
          · exact (Function.update_of_ne hOut _ _).trans
              (congrFun hSample i)
          · exact congrFun hSample i
        dsimp only
        split
        · rw [newAck_ackCnt]
          exact hAllow
        · split
          · exact (Function.update_of_ne hOut _ _).trans hAllow
          · rw [newAck_ackCnt]
            exact (Function.update_of_ne hOut _ _).trans hAllow

/- Every segment sent has a number of the chunk. -/
theorem sends_range
    {e : UlEvent}
    (hClock : e.ClockReads)
    {ul : Upload}
    (hPaced : ul.Paced)
    {t : Transmission}
    (hMem : t ∈ e.sends ul) :
    0 < t.seq.toNat ∧ t.seq.toNat ≤ lastSeq := by
  have hReady := e.prepare_paced hPaced
  have hOn :=
    (ulSend_sentOn hClock.ts
      (Nat.le_trans hReady.sent hReady.max)).1
  simp only [UlEvent.sends] at hMem
  rw [e.apply_eq] at hMem
  rcases List.mem_map.mp hMem with ⟨pp, hPP, rfl⟩
  by_cases hSends : (e.prepare ul).2 = true
  · rw [if_pos hSends] at hPP
    rcases (hOn.segments pp.seq).mp ⟨pp, hPP, rfl⟩ with
      ⟨hLow, hHigh⟩
    exact ⟨Nat.lt_of_le_of_lt (Nat.zero_le _) hLow,
      Nat.le_trans hHigh hOn.last⟩
  · rw [if_neg hSends] at hPP
    cases hPP

theorem prepare_ackCnt
    (e : UlEvent)
    (ul : Upload)
    {i : Nat}
    (hOut : i ∉ e.indices ul) :
    (e.prepare ul).1.ackCnt i = ul.ackCnt i := by
  cases e with
  | ack now ts num =>
      apply ulHandleAck_ackCnt
      intro hMem
      exact hOut (List.mem_append_left _ hMem)
  | check now ts =>
      have hGrown : (growCa now ul).ackCnt = ul.ackCnt := by
        rcases growCa_eq now ul with ⟨caTs, hEq⟩
        rw [hEq]
      simp only [UlEvent.prepare]
      split
      · rfl
      · split <;> exact congrFun hGrown i

/- What is not at one of these indices does not change. -/
theorem apply_frame
    {e : UlEvent}
    (hClock : e.ClockReads)
    {ul : Upload}
    (hPaced : ul.Paced)
    {i : Nat}
    (hOut : i ∉ e.indices ul) :
    (e.apply ul).1.ackCnt i = ul.ackCnt i ∧
      (e.apply ul).1.seqTs i = ul.seqTs i ∧
      (e.apply ul).1.seqTimeout i = ul.seqTimeout i := by
  have hReady := e.prepare_paced hPaced
  have hOn :=
    (ulSend_sentOn hClock.ts
      (Nat.le_trans hReady.sent hReady.max)).1
  have hCount := prepare_ackCnt e ul hOut
  rcases e.prepare_timers ul with ⟨hTs, hTimeout, _⟩
  have hApply := e.apply_eq ul
  by_cases hSends : (e.prepare ul).2 = true
  · rw [if_pos hSends] at hApply
    have hKept := hOn.kept i ?_
    · rw [hApply, hOn.ackCnt, hKept.1, hKept.2, hTs, hTimeout]
      exact ⟨hCount, rfl, rfl⟩
    · by_contra hIn
      have hSmall := (ulSend e.ts (e.prepare ul).1).1.lastPktSent.isLt
      have hWord : (BitVec.ofNat 32 i).toNat = i := by
        rw [BitVec.toNat_ofNat]
        exact Nat.mod_eq_of_lt (by omega)
      rcases (hOn.segments (BitVec.ofNat 32 i)).mpr
          (by omega) with ⟨pp, hMem, hSeq⟩
      have hSent :
          i ∈ (e.sends ul).map (fun t => t.seq.toNat) := by
        refine List.mem_map.mpr
          ⟨⟨pp.seq, e.ts pp.seq, (e.apply ul).1.rto⟩, ?_, ?_⟩
        · refine List.mem_map.mpr ⟨pp, ?_, rfl⟩
          rw [hApply]
          exact hMem
        · rw [hSeq]
          exact hWord
      apply hOut
      cases e with
      | ack now ts num => exact List.mem_append_right _ hSent
      | check now ts => exact List.mem_append_right _ hSent
  · rw [if_neg hSends] at hApply
    rw [hApply, hTs, hTimeout]
    exact ⟨hCount, rfl, rfl⟩

theorem indices_range
    {e : UlEvent}
    (hClock : e.ClockReads)
    {ul : Upload}
    (hPaced : ul.Paced)
    {i : Nat}
    (hMem : i ∈ e.indices ul) :
    i ≤ lastSeq := by
  have hMax := hPaced.max
  have hSends :
      i ∈ (e.sends ul).map (fun t => t.seq.toNat) →
        i ≤ lastSeq := by
    intro hMem
    rcases List.mem_map.mp hMem with ⟨t, hT, rfl⟩
    exact (sends_range hClock hPaced hT).2
  cases e with
  | ack now ts num =>
      rcases List.mem_append.mp hMem with hAck | hSent
      · unfold ackIndices at hAck
        split at hAck
        · cases hAck
        · split at hAck
          · cases hAck
          · split at hAck
            · cases hAck
            · rename_i hValid
              have hNum : ¬ ul.maxPktSent < num :=
                fun h => hValid (Or.inl h)
              rw [BitVec.lt_def] at hNum
              rw [List.mem_singleton.mp hAck]
              omega
      · exact hSends hSent
  | check now ts =>
      rcases List.mem_append.mp hMem with hTimer | hSent
      · unfold checkIndices at hTimer
        split at hTimer
        · cases hTimer
        · rename_i hOpen
          have hBelow :
              ul.lastPktAcked.toNat < lastSeq :=
            Nat.lt_of_not_le
              (fun h => hOpen (hPaced.finished.mpr h))
          rw [List.mem_singleton.mp hTimer,
            toNat_succ_of_le (Nat.le_of_lt hBelow)]
          exact hBelow
      · exact hSends hSent

end BtPeer

------------------------------------------------------------
-- Sequence Safety
------------------------------------------------------------

namespace BtPeer

open EventMachine

/- The order and the bounds of the sequence numbers. -/
structure UlRun.Safe (r : UlRun) : Prop where
  acked : r.ul.lastPktAcked.toNat ≤ r.ul.lastPktSent.toNat
  sent : r.ul.lastPktSent.toNat ≤ r.ul.maxPktSent.toNat
  max : r.ul.maxPktSent.toNat ≤ lastSeq
  window :
    r.ul.lastPktSent.toNat ≤
      r.ul.lastPktAcked.toNat + r.ul.windowSize.toNat
  opened : 1 ≤ r.ul.windowSize.toNat
  threshold : 2 ≤ r.ul.ssThreshold.toNat
  transmitted :
    ∀ k,
      0 < k →
      k ≤ r.ul.maxPktSent.toNat →
        ∃ t,
          lastSent r.log k = some t ∧
            r.ul.seqTs k = t.time ∧ t.time ≠ 0
  finished :
    r.ul.finished = true →
      ∀ k,
        0 < k → k ≤ lastSeq → (lastSent r.log k).isSome

/- The invariant behind `Safe`. -/
structure UlRun.Sound (r : UlRun) : Prop where
  paced : r.ul.Paced
  inWindow : r.ul.InWindow
  booked : r.Booked (fun t => t.time ≠ 0)

theorem UlRun.Sound.safe
    {r : UlRun}
    (hSound : r.Sound) :
    r.Safe := by
  have hPaced := hSound.paced
  refine ⟨hPaced.acked, hPaced.sent, hPaced.max,
    hSound.inWindow.sent, hSound.inWindow.opened,
    hPaced.threshLow, ?_, ?_⟩
  · intro k hPos hLe
    rcases hSound.booked k hPos hLe with
      ⟨t, hLast, hTs, _, hTime⟩
    exact ⟨t, hLast, hTs, hTime⟩
  · intro hDone k hPos hLe
    have hAll := hPaced.finished.mp hDone
    have hAcked := hPaced.acked
    have hSent := hPaced.sent
    rcases hSound.booked k hPos (by omega) with ⟨t, hLast, _⟩
    rw [hLast]
    rfl

theorem start_sound
    {ts : Word → Word}
    (hClock : ∀ seq, ts seq ≠ 0)
    {pIndex hasIndex : Nat}
    {mapped : Option (Nat → Byte)}
    {r : UlRun}
    (hStart : UlRun.start ts pIndex hasIndex mapped = some r) :
    r.Sound := by
  rcases start_paced hClock hStart with ⟨hPaced, hWindow⟩
  refine ⟨hPaced, hWindow, start_booked hClock hStart ?_⟩
  intro t hMem
  have hEq := start_eq hStart
  subst hEq
  rcases List.mem_map.mp hMem with ⟨pp, _, rfl⟩
  exact hClock pp.seq

theorem UlRun.Sound.step
    {r : UlRun}
    (hSound : r.Sound)
    {e : UlEvent}
    (hClock : e.ClockReads)
    (hRoom : ¬ e.WrapsWindow r.ul) :
    (r.step e).Sound := by
  refine ⟨e.apply_paced hClock hSound.paced,
    e.apply_inWindow hClock hSound.paced hSound.inWindow hRoom,
    step_booked hClock hSound.paced hSound.booked ?_⟩
  intro t hMem
  rcases List.mem_map.mp hMem with ⟨pp, _, rfl⟩
  exact hClock.ts pp.seq

/- What was acknowledged stays acknowledged. -/
theorem apply_acked
    (e : UlEvent)
    (ul : Upload) :
    ul.lastPktAcked.toNat ≤
      (e.apply ul).1.lastPktAcked.toNat := by
  have hReady :
      ul.lastPktAcked.toNat ≤
        (e.prepare ul).1.lastPktAcked.toNat := by
    cases e with
    | ack now ts num =>
        rcases (ulHandleAck_effect now ul num).acked with
          ⟨hSame, _⟩ | ⟨hNum, _, _, hLt⟩
        · exact Nat.le_of_eq (congrArg _ hSame.symm)
        · simp only [UlEvent.prepare, hNum]
          exact Nat.le_of_lt hLt
    | check now ts =>
        have hGrow := (growCa_sameCounters now ul).lastPktAcked
        simp only [UlEvent.prepare]
        split
        · exact Nat.le_refl _
        · split <;>
            exact Nat.le_of_eq (congrArg _ hGrow.symm)
  rw [e.apply_eq]
  split
  · rw [(ulSend_same e.ts (e.prepare ul).1).lastPktAcked]
    exact hReady
  · exact hReady

/-
  In every run whose checks do not grow the window beyond the
  largest `uint32_t`, every state is safe, and so is what
  every next event does.
-/
theorem sequence_safe
    {ts : Word → Word}
    (hClock : ∀ seq, ts seq ≠ 0)
    {pIndex hasIndex : Nat}
    {mapped : Option (Nat → Byte)}
    {start : UlRun}
    (hStart :
      UlRun.start ts pIndex hasIndex mapped = some start)
    {es : List UlEvent}
    (hReads : ∀ e ∈ es, e.ClockReads)
    (hRoom :
      Along UlRun.step (fun r e => ¬ e.WrapsWindow r.ul)
        start es) :
    (run UlRun.step start es).Safe ∧
      ∀ e : UlEvent,
        e.ClockReads →
          let r := run UlRun.step start es
          r.ul.lastPktAcked.toNat ≤
              (r.step e).ul.lastPktAcked.toNat ∧
            ∀ i ∈ e.indices r.ul, i ≤ lastSeq := by
  have hSound : (run UlRun.step start es).Sound :=
    @run_invariant_along _ _ UlRun.step UlRun.Sound _
      (fun r e hSound hOk => hSound.step hOk.1 hOk.2) start
      (start_sound hClock hStart) es
      (along_and (along_of_forall start hReads) hRoom)
  refine ⟨hSound.safe, ?_⟩
  intro e hNext r
  exact ⟨apply_acked e r.ul,
    fun i hMem => indices_range hNext hSound.paced hMem⟩

/- The first acknowledgement of an upload. -/
theorem sequence_safe_first_ack :
    ∃ start,
      UlRun.start (fun _ => 1) 0 0 (some (fun _ => 7)) =
          some start ∧
        (run UlRun.step start
          [.ack 2 (fun _ => 2) 1]).Safe := by
  refine ⟨_, rfl, ?_⟩
  have hReads :
      ∀ e ∈ [UlEvent.ack 2 (fun _ => 2) 1], e.ClockReads := by
    intro e hMem
    rw [List.mem_singleton.mp hMem]
    exact ⟨by decide, fun _ => by simp⟩
  exact
    (@sequence_safe (fun _ => 1) (fun _ => by simp) 0 0
      (some (fun _ => 7)) _ rfl _ hReads ⟨id, trivial⟩).1

/-
  An upload in congestion avoidance whose window grows at
  every check at this time: the next growth is due before
  `now`, because `now + rtt` wraps around.
-/
structure Upload.Growing
    (now : Word)
    (ul : Upload) : Prop where
  running : ul.finished = false
  status : ul.status = .congestionAvoidance
  waiting : timerExpired now ul = false
  due : ul.GrowsCa now
  wraps : now + ul.rtt < now

theorem Upload.Growing.check
    {now : Word}
    {ul : Upload}
    (hGrowing : ul.Growing now)
    (ts : Word → Word) :
    let ul' := ((UlEvent.check now ts).apply ul).1
    ul'.Growing now ∧ ul'.windowSize = ul.windowSize + 1 := by
  have hNext :
      ((UlEvent.check now ts).apply ul).1 =
        { ul with
          windowSize := ul.windowSize + 1
          caTs := now + ul.rtt } := by
    have hGrown :
        growCa now ul =
          { ul with
            windowSize := ul.windowSize + 1
            caTs := now + ul.rtt } := by
      simp only [growCa, hGrowing.status,
        if_pos hGrowing.due.2]
    have hWaiting : ¬ timerExpired now (growCa now ul) = true := by
      rw [growCa_timerExpired, hGrowing.waiting]
      decide
    have hRunning : ¬ ul.finished = true := by
      rw [hGrowing.running]
      decide
    simp only [UlEvent.apply, ulCheckTimeout]
    rw [if_neg hRunning, if_neg hWaiting]
    exact hGrown
  rw [hNext]
  refine ⟨⟨hGrowing.running, hGrowing.status,
    hGrowing.waiting, ⟨Or.inl hGrowing.status, ?_⟩,
    hGrowing.wraps⟩, rfl⟩
  dsimp only
  split
  · exact hGrowing.wraps
  · exact hGrowing.wraps

theorem Upload.Growing.checks
    {now : Word}
    (ts : Word → Word)
    (n : Nat)
    {r : UlRun}
    (hGrowing : r.ul.Growing now) :
    (run UlRun.step r
        (List.replicate n (.check now ts))).ul.windowSize =
      r.ul.windowSize + BitVec.ofNat 32 n := by
  induction n generalizing r with
  | zero => simp
  | succ n ih =>
      rcases hGrowing.check ts with ⟨hNext, hWindow⟩
      rw [List.replicate_succ, run_cons,
        ih (r := r.step (.check now ts)) hNext]
      calc
        (r.step (.check now ts)).ul.windowSize +
              BitVec.ofNat 32 n =
            r.ul.windowSize + 1 + BitVec.ofNat 32 n := by
          rw [← hWindow]
          rfl
        _ = r.ul.windowSize + BitVec.ofNat 32 (n + 1) := by
          rw [BitVec.ofNat_add, BitVec.add_assoc,
            BitVec.add_comm (1 : Word)]
          rfl

/-
  A timeout and three acknowledgements lead to congestion
  avoidance with a window of 4, at a time so late that
  `now + rtt` wraps around; then come `n` checks. The clock
  never goes back and never reads 0.
-/
def lateChecks (n : Nat) : List UlEvent :=
  [.check 6000 (fun _ => 6000),
    .ack 6001 (fun _ => 6001) 1,
    .ack 4294964795 (fun _ => 4294964795) 2,
    .ack 4294967294 (fun _ => 4294967294) 3] ++
  List.replicate n (.check 4294967294 (fun _ => 4294967294))

theorem lateChecks_reads
    (n : Nat) :
    ∀ e ∈ lateChecks n, e.ClockReads := by
  intro e hMem
  rcases List.mem_append.mp hMem with hFirst | hCheck
  · simp only [List.mem_cons, List.not_mem_nil,
      or_false] at hFirst
    rcases hFirst with rfl | rfl | rfl | rfl <;>
      exact ⟨by decide, fun _ => by simp⟩
  · rw [List.eq_of_mem_replicate hCheck]
    exact ⟨by decide, fun _ => by simp⟩

theorem lateChecks_window
    (n : Nat) :
    ∃ start,
      UlRun.start (fun _ => 1) 0 0 (some (fun _ => 7)) =
          some start ∧
        (run UlRun.step start (lateChecks n)).ul.windowSize =
          4 + BitVec.ofNat 32 n := by
  refine ⟨_, rfl, ?_⟩
  rw [lateChecks, run_append, Upload.Growing.checks]
  · congr 1
  · constructor <;> decide +kernel

/- The window grows at every check, until it is 0. -/
theorem window_wraps :
    (∀ e ∈ lateChecks 4294967292, e.ClockReads) ∧
      ∃ start,
        UlRun.start (fun _ => 1) 0 0 (some (fun _ => 7)) =
            some start ∧
          ¬ (run UlRun.step start
            (lateChecks 4294967292)).Safe := by
  refine ⟨lateChecks_reads 4294967292, ?_⟩
  rcases lateChecks_window 4294967292 with
    ⟨start, hStart, hWindow⟩
  refine ⟨start, hStart, ?_⟩
  intro hSafe
  have hOpened := hSafe.opened
  rw [hWindow] at hOpened
  revert hOpened
  decide

end BtPeer
