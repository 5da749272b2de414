import BtPeer.Transfer.Rounds

/-
  The timeouts of an upload one after the other, with no
  acknowledgement in between: the `rto` of each transmission
  of the segment waited for.

  Key definitions include:
    * `UlEvent.Expires`
    * `UlEvent.BacksOff`
    * `UlRun.CanBackOff`

  Key theorems include:
    * `ulSend_one`
    * `check_expired`
    * `UlRun.BackedOff.along`
    * `backoff_monotone_iff`
-/

------------------------------------------------------------
-- One Timeout
------------------------------------------------------------

namespace BtPeer

/- After a loss `ul_send` sends one segment. -/
theorem ulSend_one
    (ts : Word → Word)
    {ul : Upload}
    (hSent : ul.lastPktSent = ul.lastPktAcked)
    (hWindow : ul.windowSize = 1)
    (hTail : ul.lastPktAcked.toNat < lastSeq) :
    (ulSend ts ul).2.1 =
        [ul.segment (ul.lastPktAcked + 1)] ∧
      (ulSend ts ul).1.rto = getRto ul.rtt := by
  have hLoop :=
    @ulSendLoop_one ts lastSeq ul hSent hWindow hTail
  dsimp only at hLoop
  unfold ulSend sendFuel
  rw [hLoop]
  by_cases hZero : ts (ul.lastPktAcked + 1) = 0
  · rw [if_pos hZero]
    exact ⟨rfl, rfl⟩
  · rw [if_neg hZero]
    exact ⟨rfl, rfl⟩

namespace UlEvent

def IsCheck : UlEvent → Prop
| .ack _ _ _ => False
| .check _ _ => True

/- The check finds the segment waited for overdue. -/
def Expires
    (ul : Upload) : UlEvent → Prop
| .ack _ _ _ => False
| .check now _ =>
    ul.finished = false ∧ timerExpired now ul = true

/-
  The segment waited for is sent again with an `rto` not
  below that of its last transmission, and not above
  `DEFAULT_TIMEOUT`.
-/
def BacksOff
    (r : UlRun)
    (e : UlEvent) : Prop :=
  ∀ t ∈ e.sends r.ul,
    t.seq = r.ul.lastPktAcked + 1 →
      t.rto.toNat ≤ defaultTimeout ∧
        ∀ t', lastSent r.log t.seq.toNat = some t' →
          t'.rto.toNat ≤ t.rto.toNat

end UlEvent

/- The `rto` after a timeout with the estimate `rtt`. -/
def backedOffRto (rtt : Word) : Nat :=
  if 2 * rtt.toNat % 4294967296 = 0 then defaultTimeout
  else 2 * min (2 * rtt.toNat % 4294967296) 1250

theorem getRto_backedOff
    (rtt : Word) :
    (getRto
      (wordMin (rtt * 2)
        (BitVec.ofNat 32 (defaultTimeout / 4)))).toNat =
      backedOffRto rtt := by
  have hDouble :
      (rtt * 2).toNat = 2 * rtt.toNat % 4294967296 := by
    rw [BitVec.toNat_mul, Nat.mul_comm]
    rfl
  have hMin :
      (wordMin (rtt * 2)
          (BitVec.ofNat 32 (defaultTimeout / 4))).toNat =
        min (2 * rtt.toNat % 4294967296) 1250 := by
    rw [toNat_wordMin, hDouble]
    rfl
  have hTwice :
      (2 * wordMin (rtt * 2)
          (BitVec.ofNat 32 (defaultTimeout / 4))).toNat =
        2 * min (2 * rtt.toNat % 4294967296) 1250 := by
    rw [BitVec.toNat_mul, hMin]
    have hTwo : (2 : Word).toNat = 2 := rfl
    rw [hTwo]
    omega
  unfold getRto backedOffRto
  by_cases hZero : 2 * rtt.toNat % 4294967296 = 0
  · rw [if_pos hZero, if_pos]
    · rfl
    · apply BitVec.eq_of_toNat_eq
      rw [hTwice, hZero]
      rfl
  · rw [if_neg hZero, if_neg, hTwice]
    intro hNone
    rw [hNone] at hTwice
    have hNothing : (0 : Word).toNat = 0 := rfl
    omega

theorem backedOffRto_le
    (rtt : Word) :
    backedOffRto rtt ≤ defaultTimeout := by
  unfold backedOffRto
  rw [defaultTimeout_eq]
  split <;> omega

/- What a timeout leaves of the upload. -/
structure Resent (r r' : UlRun) : Prop where
  acked : r'.ul.lastPktAcked = r.ul.lastPktAcked
  rtt :
    r'.ul.rtt =
      wordMin (r.ul.rtt * 2)
        (BitVec.ofNat 32 (defaultTimeout / 4))
  log :
    ∃ t : Transmission,
      t.seq = r.ul.lastPktAcked + 1 ∧
        t.rto.toNat = backedOffRto r.ul.rtt ∧
        r'.log = r.log ++ [t]

/- What a check without a timeout leaves. -/
structure Idle (r r' : UlRun) : Prop where
  acked : r'.ul.lastPktAcked = r.ul.lastPktAcked
  rtt : r'.ul.rtt = r.ul.rtt
  finished : r'.ul.finished = r.ul.finished
  seqTimeout : r'.ul.seqTimeout = r.ul.seqTimeout
  log : r'.log = r.log

theorem check_idle
    {r : UlRun}
    {e : UlEvent}
    (hCheck : e.IsCheck)
    (hEarly : ¬ e.Expires r.ul) :
    Idle r (r.step e) ∧ e.sends r.ul = [] := by
  cases e with
  | ack now ts num => cases hCheck
  | check now ts =>
      rcases growCa_eq now r.ul with ⟨caTs, hEq⟩
      have hPrepared :
          ∃ ul,
            (UlEvent.check now ts).prepare r.ul =
                (ul, false) ∧
              ul.lastPktAcked = r.ul.lastPktAcked ∧
              ul.rtt = r.ul.rtt ∧
              ul.finished = r.ul.finished ∧
              ul.seqTimeout = r.ul.seqTimeout := by
        simp only [UlEvent.prepare, growCa_timerExpired]
        by_cases hDone : r.ul.finished = true
        · rw [if_pos hDone]
          exact ⟨_, rfl, rfl, rfl, rfl, rfl⟩
        · have hLate :
              ¬ timerExpired now r.ul = true :=
            fun hLate =>
              hEarly ⟨(Bool.not_eq_true _).mp hDone, hLate⟩
          rw [if_neg hDone, if_neg hLate, hEq]
          exact ⟨_, rfl, rfl, rfl, rfl, rfl⟩
      rcases hPrepared with
        ⟨ul, hOut, hAcked, hRtt, hFinished, hTimeout⟩
      have hApply := UlEvent.apply_eq (.check now ts) r.ul
      rw [hOut, if_neg Bool.false_ne_true] at hApply
      have hNone :
          (UlEvent.check now ts).sends r.ul = [] := by
        simp only [UlEvent.sends, hApply, transmissions,
          List.map_nil]
      refine ⟨⟨?_, ?_, ?_, ?_, ?_⟩, hNone⟩
      · simp only [UlRun.step, hApply, hAcked]
      · simp only [UlRun.step, hApply, hRtt]
      · simp only [UlRun.step, hApply, hFinished]
      · simp only [UlRun.step, hApply, hTimeout]
      · simp only [UlRun.step, hNone, List.append_nil]

theorem check_expired
    {r : UlRun}
    {e : UlEvent}
    (hSteady : r.ul.Steady)
    (hLate : e.Expires r.ul) :
    Resent r (r.step e) := by
  cases e with
  | ack now ts num => cases hLate
  | check now ts =>
      rcases hLate with ⟨hOpen, hLate⟩
      have hDone : ¬ r.ul.finished = true := by
        rw [hOpen]
        exact Bool.false_ne_true
      have hTail := hSteady.next_le hOpen
      rcases growCa_eq now r.ul with ⟨caTs, hEq⟩
      have hPrepared :
          ∃ ul,
            (UlEvent.check now ts).prepare r.ul =
                (ul, true) ∧
              ul.lastPktAcked = r.ul.lastPktAcked ∧
              ul.lastPktSent = r.ul.lastPktAcked ∧
              ul.windowSize = 1 ∧
              ul.rtt =
                wordMin (r.ul.rtt * 2)
                  (BitVec.ofNat 32 (defaultTimeout / 4)) := by
        simp only [UlEvent.prepare, growCa_timerExpired]
        rw [if_neg hDone, if_pos hLate, hEq]
        exact ⟨_, rfl, rfl, rfl, rfl, rfl⟩
      rcases hPrepared with
        ⟨ul, hOut, hAcked, hSent, hWindow, hRtt⟩
      have hApply := UlEvent.apply_eq (.check now ts) r.ul
      rw [hOut, if_pos rfl] at hApply
      rcases @ulSend_one ts ul (hSent.trans hAcked.symm)
          hWindow (hAcked ▸ hTail) with ⟨hOne, hRto⟩
      have hSends :=
        (ulSend_sends ts
          (show ul.lastPktSent.toNat ≤ lastSeq by
            rw [hSent]
            exact Nat.le_of_lt hTail)).1
      have hAckedKept := hSends.same.lastPktAcked
      have hRttKept := hSends.rtt
      refine ⟨?_, ?_, ?_⟩
      · simp only [UlRun.step, hApply, UlEvent.ts,
          hAckedKept, hAcked]
      · simp only [UlRun.step, hApply, UlEvent.ts, hRttKept,
          hRtt]
      · refine
          ⟨⟨r.ul.lastPktAcked + 1, ts (r.ul.lastPktAcked + 1),
            getRto ul.rtt⟩, rfl, ?_, ?_⟩
        · rw [hRtt]
          exact getRto_backedOff r.ul.rtt
        · simp only [UlRun.step, UlEvent.sends, hApply,
            UlEvent.ts, hOne, hRto, transmissions, hAcked]
          rfl

end BtPeer

------------------------------------------------------------
-- Timeouts In A Row
------------------------------------------------------------

namespace BtPeer

open EventMachine

/- The last segment sent is the one that was sent last. -/
theorem lastSent_concat
    (log : List Transmission)
    (t : Transmission) :
    lastSent (log ++ [t]) t.seq.toNat = some t := by
  rw [lastSent_append]
  simp [lastSent]

/-
  The first timeout does not shorten the `rto` of the segment
  waited for.
-/
def UlRun.CanBackOff (r : UlRun) : Prop :=
  ∀ t,
    lastSent r.log (r.ul.lastPktAcked + 1).toNat = some t →
      t.rto.toNat ≤ backedOffRto r.ul.rtt

/-
  After a timeout: the estimate is capped, and the segment
  waited for was sent with the `rto` of this estimate.
-/
structure UlRun.BackedOff (r : UlRun) : Prop where
  steady : r.ul.Steady
  capped : r.ul.rtt.toNat ≤ 1250
  sent :
    ∀ t,
      lastSent r.log (r.ul.lastPktAcked + 1).toNat = some t →
        t.rto.toNat ≤ (getRto r.ul.rtt).toNat

/- A capped estimate does not shrink. -/
theorem backedOffRto_mono
    {rtt : Word}
    (hCapped : rtt.toNat ≤ 1250) :
    (getRto rtt).toNat ≤ backedOffRto rtt := by
  have hSmall : 2 * rtt.toNat % 4294967296 = 2 * rtt.toNat :=
    Nat.mod_eq_of_lt (by omega)
  have hTwice : (2 * rtt).toNat = 2 * rtt.toNat := by
    rw [BitVec.toNat_mul]
    exact hSmall
  unfold backedOffRto getRto
  rw [hSmall]
  by_cases hZero : 2 * rtt = 0
  · have hNone : 2 * rtt.toNat = 0 := by
      rw [← hTwice, hZero]
      rfl
    rw [if_pos hZero, if_pos hNone]
    exact Nat.le_refl _
  · have hSome : 2 * rtt.toNat ≠ 0 := by
      intro hNone
      exact hZero (BitVec.eq_of_toNat_eq (hTwice.trans hNone))
    rw [if_neg hZero, if_neg hSome, hTwice]
    omega

theorem UlRun.BackedOff.canBackOff
    {r : UlRun}
    (hBacked : r.BackedOff) :
    r.CanBackOff := by
  intro t hLast
  exact Nat.le_trans (hBacked.sent t hLast)
    (backedOffRto_mono hBacked.capped)

/- A timeout backs off exactly when it can. -/
theorem expired_backsOff_iff
    {r : UlRun}
    {e : UlEvent}
    (hSteady : r.ul.Steady)
    (hLate : e.Expires r.ul) :
    e.BacksOff r ↔ r.CanBackOff := by
  rcases (check_expired hSteady hLate).log with
    ⟨t, hSeq, hRto, hLog⟩
  have hSends : e.sends r.ul = [t] :=
    List.append_cancel_left hLog
  unfold UlEvent.BacksOff UlRun.CanBackOff
  rw [hSends, List.forall_mem_singleton, hSeq, hRto]
  constructor
  · intro hAll
    exact (hAll rfl).2
  · intro hAll _
    exact ⟨backedOffRto_le r.ul.rtt, hAll⟩

theorem expired_backedOff
    {r : UlRun}
    {e : UlEvent}
    (hSteady : r.ul.Steady)
    (hLate : e.Expires r.ul) :
    (r.step e).BackedOff := by
  have hResent := check_expired hSteady hLate
  rcases hResent.log with ⟨t, hSeq, hRto, hLog⟩
  refine ⟨e.apply_steady hSteady, ?_, ?_⟩
  · rw [hResent.rtt, toNat_wordMin]
    exact Nat.min_le_right _ _
  · intro t' hLast
    rw [hLog, hResent.acked, ← hSeq, lastSent_concat]
      at hLast
    rw [← Option.some.inj hLast, hRto, hResent.rtt,
      getRto_backedOff]

/- A check that sends nothing backs off trivially. -/
theorem idle_backsOff
    {r : UlRun}
    {e : UlEvent}
    (hNone : e.sends r.ul = []) :
    e.BacksOff r := by
  intro t hMem
  rw [hNone] at hMem
  cases hMem

theorem Idle.canBackOff_iff
    {r r' : UlRun}
    (hIdle : Idle r r') :
    r'.CanBackOff ↔ r.CanBackOff := by
  unfold UlRun.CanBackOff
  rw [hIdle.log, hIdle.acked, hIdle.rtt]

theorem Idle.expires_iff
    {r r' : UlRun}
    (hIdle : Idle r r')
    (e : UlEvent) :
    e.Expires r'.ul ↔ e.Expires r.ul := by
  cases e with
  | ack now ts num => exact Iff.rfl
  | check now ts =>
      simp only [UlEvent.Expires, timerExpired,
        hIdle.finished, hIdle.seqTimeout, hIdle.acked]

/- From the first timeout on the checks back off. -/
theorem UlRun.BackedOff.along
    {r : UlRun}
    (hBacked : r.BackedOff)
    {es : List UlEvent}
    (hChecks : ∀ e ∈ es, e.IsCheck) :
    Along UlRun.step (fun r e => e.BacksOff r) r es := by
  refine
    @Along.of_invariant _ _ UlRun.step UlRun.BackedOff
      (fun _ e => e.IsCheck) (fun r e => e.BacksOff r)
      ?_ ?_ r hBacked es (along_of_forall r hChecks)
  · intro r e hBacked hCheck
    by_cases hLate : e.Expires r.ul
    · exact expired_backedOff hBacked.steady hLate
    · have hIdle := (check_idle hCheck hLate).1
      refine ⟨e.apply_steady hBacked.steady, ?_, ?_⟩
      · rw [hIdle.rtt]
        exact hBacked.capped
      · rw [hIdle.log, hIdle.acked, hIdle.rtt]
        exact hBacked.sent
  · intro r e hBacked hCheck
    by_cases hLate : e.Expires r.ul
    · exact (expired_backsOff_iff hBacked.steady hLate).mpr
        hBacked.canBackOff
    · exact idle_backsOff (check_idle hCheck hLate).2

theorem checks_backOff_iff
    {r : UlRun}
    (hSteady : r.ul.Steady)
    {es : List UlEvent}
    (hChecks : ∀ e ∈ es, e.IsCheck) :
    Along UlRun.step (fun r e => e.BacksOff r) r es ↔
      ((∃ e ∈ es, e.Expires r.ul) → r.CanBackOff) := by
  induction es generalizing r with
  | nil =>
      refine iff_of_true trivial ?_
      rintro ⟨e, hMem, _⟩
      cases hMem
  | cons e es ih =>
      rcases List.forall_mem_cons.mp hChecks with
        ⟨hCheck, hRest⟩
      by_cases hLate : e.Expires r.ul
      · have hLater :=
          (expired_backedOff hSteady hLate).along hRest
        constructor
        · rintro ⟨hFirst, _⟩ _
          exact (expired_backsOff_iff hSteady hLate).mp
            hFirst
        · intro hCan
          exact
            ⟨(expired_backsOff_iff hSteady hLate).mpr
              (hCan ⟨e, List.mem_cons_self, hLate⟩), hLater⟩
      · rcases check_idle hCheck hLate with ⟨hIdle, hNone⟩
        have hNext : (r.step e).ul.Steady :=
          e.apply_steady hSteady
        have hTail := ih hNext hRest
        simp only [hIdle.expires_iff, hIdle.canBackOff_iff]
          at hTail
        simp only [Along, idle_backsOff hNone, true_and,
          hTail, List.exists_mem_cons_iff, hLate, false_or]

/-
  In a run of checks from any reachable upload, no timeout
  sends the segment waited for with a smaller `rto` than
  before or one above `DEFAULT_TIMEOUT`, exactly when the
  first timeout does not shorten it.
-/
theorem backoff_monotone_iff
    {r : UlRun}
    (hReached : r.Reached)
    {es : List UlEvent}
    (hChecks : ∀ e ∈ es, e.IsCheck) :
    Along UlRun.step (fun r e => e.BacksOff r) r es ↔
      ((∃ e ∈ es, e.Expires r.ul) → r.CanBackOff) :=
  checks_backOff_iff hReached.steady hChecks

/- A check of a new upload that comes in time. -/
theorem backoff_monotone_early :
    Along UlRun.step (fun r e => e.BacksOff r)
      (UlRun.launch (fun _ => 1) 0 0 (some (fun _ => 7)))
      [.check 2 (fun _ => 2)] := by
  have hReached :
      (UlRun.launch (fun _ => 1) 0 0
        (some (fun _ => 7))).Reached :=
    ⟨fun _ => 1, 0, 0, some (fun _ => 7), [], rfl⟩
  refine (backoff_monotone_iff hReached ?_).mpr ?_
  · intro e hMem
    rw [List.mem_singleton.mp hMem]
    trivial
  · rintro ⟨e, hMem, hLate⟩
    rw [List.mem_singleton.mp hMem] at hLate
    have hInTime :
        timerExpired 2
          (UlRun.launch (fun _ => 1) 0 0
            (some (fun _ => 7))).ul = false := by
      decide +kernel
    rw [hLate.2] at hInTime
    cases hInTime

/-
  The first segment of an upload is sent with an `rto` of
  5000 ms, and its first timeout sends it again with 2500.
-/
theorem backoff_shortens :
    ¬ ∀ (r : UlRun) (es : List UlEvent),
        r.Reached →
        (∀ e ∈ es, e.IsCheck) →
          Along UlRun.step (fun r e => e.BacksOff r) r es := by
  intro hAll
  have hReached :
      (UlRun.launch (fun _ => 1) 0 0
        (some (fun _ => 7))).Reached :=
    ⟨fun _ => 1, 0, 0, some (fun _ => 7), [], rfl⟩
  have hCheck :
      ∀ e ∈ [UlEvent.check 9000 (fun _ => 9000)],
        e.IsCheck := by
    intro e hMem
    rw [List.mem_singleton.mp hMem]
    trivial
  have hSends :
      (UlEvent.check 9000 (fun _ => 9000)).sends
          (UlRun.launch (fun _ => 1) 0 0
            (some (fun _ => 7))).ul =
        [⟨1, 9000, 2500⟩] := rfl
  have hFirst :
      lastSent
          (UlRun.launch (fun _ => 1) 0 0
            (some (fun _ => 7))).log 1 =
        some ⟨1, 1, 5000⟩ := rfl
  have hBacks := (hAll _ _ hReached hCheck).1 ⟨1, 9000, 2500⟩
    (by rw [hSends]; exact List.mem_singleton_self _) rfl
  have hMono := hBacks.2 ⟨1, 1, 5000⟩ hFirst
  revert hMono
  decide

end BtPeer
