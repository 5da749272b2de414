import BtPeer.Transfer.Pacing

/-
  A started upload that is not finished waits for a segment
  that was sent and whose timer is armed.

  Key definitions include:
    * `UlRun.Armed`
    * `UlEvent.ArmsTimers`
    * `UlEvent.RoomToSend`

  Key theorems include:
    * `ulSend_advances`
    * `upload_never_stalls`
    * `timer_of_zero`
-/

------------------------------------------------------------
-- Sending Goes On
------------------------------------------------------------

namespace BtPeer

/- With an open window `ul_send` sends at least one segment. -/
theorem ulSend_advances
    {ts : Word → Word}
    (hClock : ∀ seq, ts seq ≠ 0)
    {ul : Upload}
    (hRoom :
      ul.lastPktSent < ul.lastPktAcked + ul.windowSize)
    (hTail : ul.lastPktSent.toNat < lastSeq) :
    ul.lastPktSent.toNat <
      (ulSend ts ul).1.lastPktSent.toNat := by
  have hLast := Nat.le_of_lt hTail
  rcases (ulSendLoop_sends ts sendFuel hLast).sentOn hClock
    with ⟨hOn, hOk⟩
  have hSame :
      (ulSend ts ul).1.lastPktSent =
        (ulSendLoop ts sendFuel ul).1.lastPktSent := by
    unfold ulSend
    split <;> rename_i hOut <;> rw [hOut]
  rw [hSame]
  rcases ulSend_stops ts ul with hFail | hFull | hEnd
  · rw [hOk] at hFail
    cases hFail
  · rw [hOn.same.lastPktAcked, hOn.same.windowSize,
      BitVec.le_def] at hFull
    rw [BitVec.lt_def] at hRoom
    exact Nat.lt_of_lt_of_le hRoom hFull
  · rw [toNat_succ_of_le hOn.last] at hEnd
    omega

/-
  In the states other than congestion avoidance a new
  acknowledgement leaves a small window.
-/
theorem ackStatus_room
    {ul : Upload}
    {ack : Word}
    (hPaced : ul.Paced)
    (hNew : ul.lastPktAcked < ack)
    (hMax : ack ≤ ul.maxPktSent)
    (hOpened : 0 < ul.windowSize.toNat)
    (hRoom : ack.toNat + ul.windowSize.toNat < 2 ^ 32) :
    ack < ack + (ackStatus ul ack).windowSize := by
  have hHigh := hPaced.threshHigh
  have hLast := hPaced.max
  have hWindow := hPaced.window
  rw [BitVec.lt_def] at hNew
  rw [BitVec.le_def] at hMax
  simp only [lastSeq_eq] at hLast
  cases hStatus : ul.status with
  | slowStart =>
      simp only [Upload.SmallWindow, hStatus] at hWindow
      simp only [ackStatus, hStatus]
      bv_omega
  | congestionAvoidance =>
      simp only [ackStatus, hStatus]
      bv_omega
  | fastRetransmit =>
      simp only [Upload.SmallWindow, hStatus] at hWindow
      simp only [ackStatus, hStatus]
      split
      · dsimp only
        bv_omega
      · bv_omega
  | fastRetransmitSs =>
      simp only [Upload.SmallWindow, hStatus] at hWindow
      simp only [ackStatus, hStatus]
      bv_omega
  | fastRetransmitCa =>
      simp only [ackStatus, hStatus]
      split
      · dsimp only
        bv_omega
      · bv_omega

end BtPeer

------------------------------------------------------------
-- A Segment To Wait For
------------------------------------------------------------

namespace BtPeer

/- The upload is finished or has sent what it waits for. -/
def Upload.Waiting (ul : Upload) : Prop :=
  ul.finished = true ∨
    ul.lastPktAcked.toNat < ul.lastPktSent.toNat

namespace UlEvent

/-
  No segment is sent at a time `t` with `t + rto = 0` in
  `uint32_t`, which would be stored as a timer of 0.
-/
def ArmsTimers
    (ul : Upload)
    (e : UlEvent) : Prop :=
  ∀ t ∈ e.sends ul, t.time + t.rto ≠ 0

/-
  When everything sent is acknowledged, the window is not 0
  and the sum that bounds `ul_send` does not overflow.
-/
def RoomToSend
    (ul : Upload) : UlEvent → Prop
| .ack _ _ num =>
    ul.finished = false →
    ul.lastPktSent ≤ num →
    num ≤ ul.maxPktSent →
    num.toNat < lastSeq →
      0 < ul.windowSize.toNat ∧
        num.toNat + ul.windowSize.toNat < 2 ^ 32
| .check _ _ => True

end UlEvent

/- An upload that waits for nothing has room to send. -/
def Upload.Ready (ul : Upload) : Prop :=
  ul.Waiting ∨
    ul.lastPktSent < ul.lastPktAcked + ul.windowSize

theorem ulLoss_ready
    {ul : Upload}
    (hPaced : ul.Paced) :
    (ulLoss ul).Ready := by
  have hAcked := hPaced.acked
  have hSent := hPaced.sent
  have hMax := hPaced.max
  simp only [lastSeq_eq] at hMax
  right
  simp only [ulLoss]
  bv_omega

theorem ulHandleAck_ready
    (now : Word)
    {ul : Upload}
    {ack : Word}
    (hPaced : ul.Paced)
    (hWaiting : ul.Waiting)
    (hRoom :
      (UlEvent.ack now (fun _ => 0) ack).RoomToSend ul) :
    (ulHandleAck now ul ack).Ready := by
  rcases ulHandleAck_cases now ul ack with
    ⟨ul', hSame, hOut⟩
  have hPaced' := hPaced.of_sampled hSame
  rcases hOut with hOut | ⟨_, hOut⟩ |
    ⟨hOpen, hNew, hMax, hOut⟩
  · left
    rw [hOut]
    simp only [Upload.Waiting, hSame.finished,
      hSame.lastPktAcked, hSame.lastPktSent]
    exact hWaiting
  · rw [hOut]
    exact ulLoss_ready hPaced'
  · rw [← hSame.lastPktAcked] at hNew
    have hCounters := ackStatus_sameCounters ul' ack
    rw [hOut, newAck_eq hNew]
    by_cases hDone : lastSeq ≤ ack.toNat
    · left
      left
      simp only [decide_eq_true hDone, Bool.or_true]
    · by_cases hCovers : ul.lastPktSent ≤ ack
      · right
        rcases hRoom hOpen hCovers hMax
            (Nat.lt_of_not_le hDone) with ⟨hOpened, hSum⟩
        have hSent :
            wordMax (ackStatus ul' ack).lastPktSent ack =
              ack := by
          rw [hCounters.lastPktSent, hSame.lastPktSent,
            wordMax]
          exact if_neg (BitVec.not_lt.mpr hCovers)
        rw [← hSame.windowSize] at hOpened hSum
        rw [← hSame.maxPktSent] at hMax
        have hGrown :=
          ackStatus_room hPaced' hNew hMax hOpened hSum
        simp only [hSent]
        exact hGrown
      · left
        right
        rw [BitVec.le_def] at hCovers
        simp only [toNat_wordMax, hCounters.lastPktSent,
          hSame.lastPktSent]
        omega

theorem UlEvent.prepare_ready
    {e : UlEvent}
    {ul : Upload}
    (hPaced : ul.Paced)
    (hWaiting : ul.Waiting)
    (hRoom : e.RoomToSend ul) :
    if (e.prepare ul).2 then (e.prepare ul).1.Ready
    else (e.prepare ul).1.Waiting := by
  cases e with
  | ack now ts num =>
      exact ulHandleAck_ready now hPaced hWaiting hRoom
  | check now ts =>
      have hGrown := growCa_paced now hPaced
      have hSame := growCa_sameCounters now ul
      simp only [prepare]
      split
      · exact hWaiting
      · split
        · exact ulLoss_ready
            (hGrown.of_sampled
              ⟨rfl, rfl, rfl, rfl, rfl, rfl, rfl, rfl, rfl,
                rfl⟩)
        · simp only [Upload.Waiting, hSame.finished,
            hSame.lastPktAcked, hSame.lastPktSent]
          exact hWaiting

/- Sending turns room into something to wait for. -/
theorem ulSend_waiting
    {ts : Word → Word}
    (hClock : ∀ seq, ts seq ≠ 0)
    {ul : Upload}
    (hPaced : ul.Paced)
    (hReady : ul.Ready) :
    (ulSend ts ul).1.Waiting := by
  have hAcked := hPaced.acked
  have hLast := Nat.le_trans hPaced.sent hPaced.max
  have hOn := (ulSend_sentOn hClock hLast).1
  have hLe := hOn.le
  unfold Upload.Waiting
  rw [hOn.same.finished, hOn.same.lastPktAcked]
  rcases hReady with hWaiting | hRoom
  · rcases hWaiting with hDone | hLt
    · exact Or.inl hDone
    · exact Or.inr (Nat.lt_of_lt_of_le hLt hLe)
  · by_cases hTail : ul.lastPktSent.toNat < lastSeq
    · have hMore := ulSend_advances hClock hRoom hTail
      exact Or.inr (Nat.lt_of_le_of_lt hAcked hMore)
    · by_cases hAll : lastSeq ≤ ul.lastPktAcked.toNat
      · exact Or.inl (hPaced.finished.mpr hAll)
      · right
        omega

theorem UlEvent.apply_waiting
    {e : UlEvent}
    (hClock : e.ClockReads)
    {ul : Upload}
    (hPaced : ul.Paced)
    (hWaiting : ul.Waiting)
    (hRoom : e.RoomToSend ul) :
    (e.apply ul).1.Waiting := by
  have hPrepared := prepare_ready hPaced hWaiting hRoom
  have hPacedReady := e.prepare_paced hPaced
  rw [e.apply_eq]
  by_cases hSends : (e.prepare ul).2 = true
  · rw [if_pos hSends] at hPrepared ⊢
    exact ulSend_waiting hClock.ts hPacedReady hPrepared
  · rw [if_neg hSends] at hPrepared ⊢
    exact hPrepared

end BtPeer

------------------------------------------------------------
-- No Silent Stall
------------------------------------------------------------

namespace BtPeer

open EventMachine

/-
  Either the upload is finished, or the segment behind the
  acknowledged ones was sent, and its timer is set to the
  time of its last transmission plus the `rto` of that time.
-/
def UlRun.Armed (r : UlRun) : Prop :=
  r.ul.finished = true ∨
    (r.ul.lastPktAcked.toNat < r.ul.lastPktSent.toNat ∧
      ∃ t,
        lastSent r.log (r.ul.lastPktAcked.toNat + 1) =
            some t ∧
          r.ul.seqTimeout (r.ul.lastPktAcked.toNat + 1) =
            t.time + t.rto ∧
          r.ul.seqTimeout (r.ul.lastPktAcked.toNat + 1) ≠ 0)

/- The invariant behind `Armed`. -/
structure UlRun.Alive (r : UlRun) : Prop where
  paced : r.ul.Paced
  booked : r.Booked (fun t => t.time + t.rto ≠ 0)
  waiting : r.ul.Waiting

theorem UlRun.Alive.armed
    {r : UlRun}
    (hAlive : r.Alive) :
    r.Armed := by
  rcases hAlive.waiting with hDone | hLt
  · exact Or.inl hDone
  · right
    refine ⟨hLt, ?_⟩
    have hSent := hAlive.paced.sent
    rcases hAlive.booked _ (Nat.succ_pos _)
        (Nat.le_trans hLt hSent) with
      ⟨t, hLast, _, hTimeout, hArmed⟩
    refine ⟨t, hLast, hTimeout, ?_⟩
    rw [hTimeout]
    exact hArmed

theorem UlRun.Alive.step
    {r : UlRun}
    (hAlive : r.Alive)
    {e : UlEvent}
    (hClock : e.ClockReads)
    (hArms : e.ArmsTimers r.ul)
    (hRoom : e.RoomToSend r.ul) :
    (r.step e).Alive where
  paced := e.apply_paced hClock hAlive.paced
  booked :=
    step_booked hClock hAlive.paced hAlive.booked hArms
  waiting :=
    UlEvent.apply_waiting hClock hAlive.paced hAlive.waiting
      hRoom

theorem start_alive
    {ts : Word → Word}
    (hClock : ∀ seq, ts seq ≠ 0)
    {pIndex hasIndex : Nat}
    {mapped : Option (Nat → Byte)}
    {r : UlRun}
    (hStart : UlRun.start ts pIndex hasIndex mapped = some r)
    (hArms : ∀ t ∈ r.log, t.time + t.rto ≠ 0) :
    r.Alive := by
  refine ⟨(start_paced hClock hStart).1,
    start_booked hClock hStart hArms, ?_⟩
  have hInit := ulInit_paced pIndex hasIndex mapped
  rw [start_eq hStart]
  refine ulSend_waiting hClock hInit (Or.inr ?_)
  change 0#32 < 0#32 + 1#32
  decide

/-
  Whatever is acknowledged and whenever the timers are
  checked: an upload that never stores a timer of 0, and that
  has room to send when all it sent is acknowledged, always
  waits for an armed timer.
-/
theorem upload_never_stalls
    {ts : Word → Word}
    (hClock : ∀ seq, ts seq ≠ 0)
    {pIndex hasIndex : Nat}
    {mapped : Option (Nat → Byte)}
    {start : UlRun}
    (hStart :
      UlRun.start ts pIndex hasIndex mapped = some start)
    (hFirst : ∀ t ∈ start.log, t.time + t.rto ≠ 0)
    {es : List UlEvent}
    (hReads : ∀ e ∈ es, e.ClockReads)
    (hAlong :
      Along UlRun.step
        (fun r e => e.ArmsTimers r.ul ∧ e.RoomToSend r.ul)
        start es) :
    (run UlRun.step start es).Armed :=
  (@run_invariant_along _ _ UlRun.step UlRun.Alive _
    (fun _ _ hAlive hOk =>
      hAlive.step hOk.1 hOk.2.1 hOk.2.2) start
    (start_alive hClock hStart hFirst) es
    (along_and (along_of_forall start hReads) hAlong)).armed

/- The first acknowledgement of an upload. -/
theorem upload_never_stalls_first_ack :
    ∃ start,
      UlRun.start (fun _ => 1) 0 0 (some (fun _ => 7)) =
          some start ∧
        (run UlRun.step start
          [.ack 2 (fun _ => 2) 1]).Armed := by
  refine ⟨_, rfl, ?_⟩
  have hReads :
      ∀ e ∈ [UlEvent.ack 2 (fun _ => 2) 1], e.ClockReads := by
    intro e hMem
    rw [List.mem_singleton.mp hMem]
    exact ⟨by decide, fun _ => by simp⟩
  refine @upload_never_stalls (fun _ => 1) (fun _ => by simp)
    0 0 (some (fun _ => 7)) _ rfl (by decide +kernel) _ hReads
    ⟨⟨?_, ?_⟩, trivial⟩
  · unfold UlEvent.ArmsTimers
    decide +kernel
  · intro _ _ _ _
    decide +kernel

/-
  An upload started at 4294962296 stores a timer of 0 for its
  first segment, because 4294962296 + 5000 is 0: a timer that
  `ul_check_timeout` takes for an invalid one.
-/
theorem timer_of_zero :
    ∃ start,
      UlRun.start (fun _ => 4294962296) 0 0
          (some (fun _ => 7)) = some start ∧
        ¬ start.Armed := by
  refine ⟨_, rfl, ?_⟩
  rintro (hDone | ⟨_, t, _, _, hTimeout⟩)
  · revert hDone
    decide +kernel
  · revert hTimeout
    decide +kernel

end BtPeer
