import BtPeer.Transfer.Rounds

/-
  The states of congestion control against the window, the
  threshold and the segments sent before the last loss.

  Key definitions include:
    * `Upload.InPhase`
    * `Upload.InRecovery`

  Key theorems include:
    * `UlEvent.apply_inPhase_iff`
    * `UlEvent.apply_inRecovery_iff`
    * `growth_phase_iff`
    * `recovery_covers_iff`
-/

------------------------------------------------------------
-- Growth Phases
------------------------------------------------------------

namespace BtPeer

namespace Upload

/- The window is on the side of the threshold of the state. -/
def InPhase (ul : Upload) : Prop :=
  match ul.status with
  | .slowStart | .fastRetransmitSs =>
      ul.windowSize ≤ ul.ssThreshold
  | .congestionAvoidance | .fastRetransmitCa =>
      ul.ssThreshold < ul.windowSize
  | .fastRetransmit => True

theorem InPhase.congr
    {ul ul' : Upload}
    (hStatus : ul'.status = ul.status)
    (hWindow : ul'.windowSize = ul.windowSize)
    (hThresh : ul'.ssThreshold = ul.ssThreshold) :
    ul'.InPhase ↔ ul.InPhase := by
  unfold InPhase
  rw [hStatus, hWindow, hThresh]

theorem InPhase.slowStart
    {ul : Upload}
    (hPhase : ul.InPhase)
    (hStatus : ul.status = .slowStart) :
    ul.windowSize ≤ ul.ssThreshold := by
  simpa only [InPhase, hStatus] using hPhase

end Upload

namespace UlEvent

/-
  The recovery ends with the window at the threshold, which
  the exit to slow start does not test; or the window of
  congestion avoidance wraps.
-/
def LeavesPhase
    (ul : Upload) : UlEvent → Prop
| .ack _ _ num =>
    ul.TakesNew num ∧ ul.status = .fastRetransmitSs ∧
      ul.maxRetransmitSeq ≤ num ∧
        ul.windowSize = ul.ssThreshold
| .check now ts => (UlEvent.check now ts).WrapsWindow ul

end UlEvent

/- The window after an acknowledgement in `FRSS`. -/
theorem newAck_inPhase_iff
    {ul : Upload}
    {ack : Word}
    (hTuned : ul.Tuned)
    (hPhase : ul.InPhase)
    (hNew : ul.lastPktAcked < ack)
    (hStatus : ul.status = .fastRetransmitSs) :
    (newAck ul ack).InPhase ↔
      ¬ (ul.maxRetransmitSeq ≤ ack ∧
        ul.windowSize = ul.ssThreshold) := by
  have hHigh := hTuned.high
  simp only [Upload.InPhase, hStatus] at hPhase
  rw [newAck_eq hNew]
  simp only [ackStatus, hStatus]
  by_cases hEnd : ul.maxRetransmitSeq ≤ ack
  · rw [if_pos hEnd]
    simp only [Upload.InPhase, hEnd, true_and]
    bv_omega
  · rw [if_neg hEnd]
    refine iff_of_true ?_ (fun hBoth => hEnd hBoth.1)
    by_cases hAbove : ul.ssThreshold < ul.windowSize + 1
    · rw [if_pos hAbove]
      exact hAbove
    · rw [if_neg hAbove]
      exact BitVec.not_lt.mp hAbove

/- In the other states the threshold is tested. -/
theorem newAck_inPhase
    {ul : Upload}
    {ack : Word}
    (hTuned : ul.Tuned)
    (hPhase : ul.InPhase)
    (hNew : ul.lastPktAcked < ack)
    (hOther : ul.status ≠ .fastRetransmitSs) :
    (newAck ul ack).InPhase := by
  have hLow := hTuned.low
  have hWindow := hTuned.window
  rw [newAck_eq hNew]
  cases hStatus : ul.status with
  | slowStart =>
      simp only [ackStatus, hStatus]
      by_cases hAbove :
          ul.ssThreshold <
            ul.windowSize + (ack - ul.lastPktAcked)
      · rw [if_pos hAbove]
        exact hAbove
      · rw [if_neg hAbove]
        exact BitVec.not_lt.mp hAbove
  | congestionAvoidance =>
      simp only [Upload.InPhase, hStatus] at hPhase
      simp only [ackStatus, hStatus, Upload.InPhase]
      exact hPhase
  | fastRetransmit =>
      simp only [Upload.SmallWindow, hStatus] at hWindow
      simp only [ackStatus, hStatus]
      split
      · simp only [Upload.InPhase]
        bv_omega
      · simp only [Upload.InPhase, hStatus]
  | fastRetransmitSs => exact absurd hStatus hOther
  | fastRetransmitCa =>
      simp only [Upload.InPhase, hStatus] at hPhase
      simp only [ackStatus, hStatus]
      split
      · simp only [Upload.InPhase]
        exact hPhase
      · simp only [Upload.InPhase, hStatus]
        exact hPhase

theorem ulHandleAck_inPhase_iff
    (now : Word)
    (ts : Word → Word)
    {ul : Upload}
    {num : Word}
    (hSteady : ul.Steady)
    (hPhase : ul.InPhase) :
    (ulHandleAck now ul num).InPhase ↔
      ¬ (UlEvent.ack now ts num).LeavesPhase ul := by
  by_cases hExit :
      ul.TakesNew num ∧ ul.status = .fastRetransmitSs
  · rcases hExit with ⟨hNew, hStatus⟩
    rcases @ulHandleAck_recovering now ul num hNew.takes
        (Or.inr (Or.inl hStatus)) with ⟨ul', hSame, hOut⟩
    have hPhase' :=
      (Upload.InPhase.congr hSame.status hSame.windowSize
        hSame.ssThreshold).mpr hPhase
    rw [hOut, newAck_inPhase_iff
      (hSteady.tuned.of_sampled hSame) hPhase'
      (hSame.lastPktAcked ▸ hNew.low)
      (hSame.status.trans hStatus), hSame.maxRetransmitSeq,
      hSame.windowSize, hSame.ssThreshold]
    simp only [UlEvent.LeavesPhase, hNew, hStatus, true_and]
  · have hStays :
        ¬ (UlEvent.ack now ts num).LeavesPhase ul :=
      fun hLeaves => hExit ⟨hLeaves.1, hLeaves.2.1⟩
    refine iff_of_true ?_ hStays
    rcases ulHandleAck_cases now ul num with
      ⟨ul', hSame, hOut⟩
    have hPhase' :=
      (Upload.InPhase.congr hSame.status hSame.windowSize
        hSame.ssThreshold).mpr hPhase
    rcases hOut with hOut | ⟨_, hOut⟩ |
      ⟨hOpen, hLow, hMax, hOut⟩
    · rw [hOut]
      exact hPhase'
    · rw [hOut]
      trivial
    · rw [hOut]
      refine newAck_inPhase (hSteady.tuned.of_sampled hSame)
        hPhase' (hSame.lastPktAcked ▸ hLow) ?_
      intro hStatus
      exact hExit
        ⟨⟨hOpen, hLow, hMax⟩, hSame.status ▸ hStatus⟩

/- The window of congestion avoidance grows at a check. -/
theorem growCa_inPhase_iff
    (now : Word)
    {ul : Upload}
    (hPhase : ul.InPhase) :
    (growCa now ul).InPhase ↔
      ¬ (ul.GrowsCa now ∧
        ul.windowSize.toNat + 1 = 2 ^ 32) := by
  rcases growCa_eq now ul with ⟨caTs, hEq⟩
  rw [hEq]
  by_cases hGrows : ul.GrowsCa now
  · simp only [hGrows, if_true, true_and]
    rcases hGrows.1 with hStatus | hStatus <;>
      simp only [Upload.InPhase, hStatus] at hPhase ⊢ <;>
      bv_omega
  · simp only [hGrows, if_false, false_and, not_false_eq_true,
      iff_true]
    exact hPhase

theorem UlEvent.apply_inPhase_iff
    (e : UlEvent)
    {ul : Upload}
    (hSteady : ul.Steady)
    (hPhase : ul.InPhase) :
    (e.apply ul).1.InPhase ↔ ¬ e.LeavesPhase ul := by
  have hReady := e.prepare_steady hSteady
  have hSent :
      (e.apply ul).1.InPhase ↔ (e.prepare ul).1.InPhase := by
    rw [e.apply_eq]
    split
    · have hSends := (ulSend_sends e.ts hReady.sent).1
      exact Upload.InPhase.congr hSends.same.status
        hSends.same.windowSize hSends.ssThreshold
    · rfl
  rw [hSent]
  cases e with
  | ack now ts num =>
      exact ulHandleAck_inPhase_iff now ts hSteady hPhase
  | check now ts =>
      simp only [LeavesPhase, WrapsWindow, prepare,
        growCa_timerExpired]
      by_cases hDone : ul.finished = true
      · rw [if_pos hDone]
        exact iff_of_true hPhase
          (fun hWraps => by simp [hDone] at hWraps)
      · rw [if_neg hDone]
        rw [Bool.not_eq_true] at hDone
        by_cases hLate : timerExpired now ul = true
        · rw [if_pos hLate]
          exact iff_of_true trivial
            (fun hWraps => by simp [hLate] at hWraps)
        · rw [if_neg hLate, growCa_inPhase_iff now hPhase]
          rw [Bool.not_eq_true] at hLate
          simp only [hDone, hLate, true_and]

end BtPeer

------------------------------------------------------------
-- Recovery
------------------------------------------------------------

namespace BtPeer

namespace Upload

/-
  After the first retransmission the recovery lasts until
  everything sent before the loss is acknowledged; before it,
  at most one segment is in flight.
-/
structure InRecovery (ul : Upload) : Prop where
  uncovered :
    ul.status = .fastRetransmitSs ∨
        ul.status = .fastRetransmitCa →
      ul.lastPktAcked < ul.maxRetransmitSeq ∧
        ul.maxRetransmitSeq ≤ ul.maxPktSent
  first :
    ul.status = .fastRetransmit →
      ul.windowSize = 1 ∧
        ul.lastPktSent ≤ ul.lastPktAcked + 1

theorem InRecovery.of_sampled
    {ul ul' : Upload}
    (hRecovery : ul.InRecovery)
    (hSame : Sampled ul ul') :
    ul'.InRecovery := by
  cases hRecovery
  constructor <;>
    simp only [hSame.lastPktAcked, hSame.lastPktSent,
      hSame.maxPktSent, hSame.maxRetransmitSeq,
      hSame.windowSize, hSame.status] <;>
    assumption

end Upload

namespace UlEvent

/-
  The acknowledgement of the first retransmission covers all
  that was sent before the loss.
-/
def EndsAtOnce
    (ul : Upload) : UlEvent → Prop
| .ack _ _ num =>
    ul.TakesNew num ∧ ul.status = .fastRetransmit ∧
      ul.maxRetransmitSeq ≤ num
| .check _ _ => False

end UlEvent

theorem ulLoss_inRecovery
    {ul : Upload}
    (hSteady : ul.Steady) :
    (ulLoss ul).InRecovery := by
  have hCounted := hSteady.counted
  have hMax := hSteady.max
  simp only [lastSeq_eq] at hMax
  refine ⟨?_, ?_⟩
  · intro hStatus
    simp [ulLoss] at hStatus
  · intro _
    refine ⟨rfl, ?_⟩
    simp only [ulLoss]
    bv_omega

/- Every new acknowledgement in `FR` starts `FRSS`. -/
theorem newAck_fastRetransmit
    {ul : Upload}
    {ack : Word}
    (hSteady : ul.Steady)
    (hRecovery : ul.InRecovery)
    (hNew : ul.lastPktAcked < ack)
    (hStatus : ul.status = .fastRetransmit) :
    (newAck ul ack).status = .fastRetransmitSs := by
  have hAcked :=
    Nat.le_trans hSteady.counted hSteady.max
  have hFirst := (hRecovery.first hStatus).2
  have hCovers : ul.lastPktSent ≤ ack := by
    simp only [lastSeq_eq] at hAcked
    bv_omega
  rw [newAck_eq hNew]
  simp only [ackStatus, hStatus, if_pos hCovers]

theorem newAck_inRecovery_iff
    {ul : Upload}
    {ack : Word}
    (hSteady : ul.Steady)
    (hRecovery : ul.InRecovery)
    (hNew : ul.lastPktAcked < ack) :
    (newAck ul ack).InRecovery ↔
      ¬ (ul.status = .fastRetransmit ∧
        ul.maxRetransmitSeq ≤ ack) := by
  have hResent : ul.maxRetransmitSeq ≤ ul.maxPktSent :=
    hSteady.resent
  have hSame := ackStatus_sameCounters ul ack
  have hKept := ackStatus_maxRetransmitSeq ul ack
  -- nothing but the state matters for the rest
  have hAcked (hNot : (newAck ul ack).status ≠ .fastRetransmit) :
      (newAck ul ack).InRecovery ↔
        ((newAck ul ack).status = .fastRetransmitSs ∨
            (newAck ul ack).status = .fastRetransmitCa →
          ack < ul.maxRetransmitSeq) := by
    rw [newAck_eq hNew] at hNot ⊢
    constructor
    · intro hIn hStatus
      have hLess := (hIn.uncovered hStatus).1
      rw [hKept] at hLess
      exact hLess
    · intro hLess
      refine ⟨fun hStatus => ?_, fun h => absurd h hNot⟩
      rw [hKept, hSame.maxPktSent]
      exact ⟨hLess hStatus, hResent⟩
  cases hStatus : ul.status with
  | slowStart =>
      rw [hAcked]
      all_goals
        rw [newAck_eq hNew]
        simp only [ackStatus, hStatus]
        split <;> simp
  | congestionAvoidance =>
      rw [hAcked]
      all_goals
        rw [newAck_eq hNew]
        simp [ackStatus, hStatus]
  | fastRetransmit =>
      have hNext :=
        newAck_fastRetransmit hSteady hRecovery hNew hStatus
      rw [hAcked (by rw [hNext]; decide), hNext]
      simp [BitVec.not_le]
  | fastRetransmitSs =>
      rw [hAcked]
      all_goals
        rw [newAck_eq hNew]
        simp only [ackStatus, hStatus]
        by_cases hEnd : ul.maxRetransmitSeq ≤ ack
        · simp [hEnd]
        · have hLess := BitVec.not_le.mp hEnd
          rw [if_neg hEnd]
          split <;> simp [hLess]
  | fastRetransmitCa =>
      rw [hAcked]
      all_goals
        rw [newAck_eq hNew]
        simp only [ackStatus, hStatus]
        by_cases hEnd : ul.maxRetransmitSeq ≤ ack
        · simp [hEnd]
        · have hLess := BitVec.not_le.mp hEnd
          simp [hEnd, hLess, hStatus]

theorem ulHandleAck_inRecovery_iff
    (now : Word)
    (ts : Word → Word)
    {ul : Upload}
    {num : Word}
    (hSteady : ul.Steady)
    (hRecovery : ul.InRecovery) :
    (ulHandleAck now ul num).InRecovery ↔
      ¬ (UlEvent.ack now ts num).EndsAtOnce ul := by
  by_cases hFirst :
      ul.TakesNew num ∧ ul.status = .fastRetransmit
  · rcases hFirst with ⟨hNew, hStatus⟩
    rcases @ulHandleAck_recovering now ul num hNew.takes
        (Or.inl hStatus) with ⟨ul', hSame, hOut⟩
    rw [hOut, newAck_inRecovery_iff
      (hSteady.of_sampled hSame)
      (hRecovery.of_sampled hSame)
      (hSame.lastPktAcked ▸ hNew.low), hSame.status,
      hSame.maxRetransmitSeq]
    simp only [UlEvent.EndsAtOnce, hNew, true_and]
  · have hStays : ¬ (UlEvent.ack now ts num).EndsAtOnce ul :=
      fun hEnds => hFirst ⟨hEnds.1, hEnds.2.1⟩
    refine iff_of_true ?_ hStays
    rcases ulHandleAck_cases now ul num with
      ⟨ul', hSame, hOut⟩
    have hSteady' := hSteady.of_sampled hSame
    have hRecovery' := hRecovery.of_sampled hSame
    rcases hOut with hOut | ⟨_, hOut⟩ |
      ⟨hOpen, hLow, hMax, hOut⟩
    · rw [hOut]
      exact hRecovery'
    · rw [hOut]
      exact ulLoss_inRecovery hSteady'
    · rw [hOut, newAck_inRecovery_iff hSteady' hRecovery'
        (hSame.lastPktAcked ▸ hLow), hSame.status]
      rintro ⟨hStatus, _⟩
      exact hFirst ⟨⟨hOpen, hLow, hMax⟩, hStatus⟩

/- A check without a timeout leaves what a recovery needs. -/
theorem growCa_inRecovery
    (now : Word)
    {ul : Upload}
    (hRecovery : ul.InRecovery) :
    (growCa now ul).InRecovery := by
  rcases growCa_eq now ul with ⟨caTs, hEq⟩
  rw [hEq]
  refine ⟨hRecovery.uncovered, ?_⟩
  intro hStatus
  have hGrowsNot : ¬ ul.GrowsCa now := by
    have hFr : ul.status = .fastRetransmit := hStatus
    rintro ⟨hCa | hCa, _⟩ <;> rw [hFr] at hCa <;> cases hCa
  rw [if_neg hGrowsNot]
  exact hRecovery.first hStatus

theorem ulSend_inRecovery_iff
    (ts : Word → Word)
    {ul : Upload}
    (hSteady : ul.Steady) :
    (ulSend ts ul).1.InRecovery ↔ ul.InRecovery := by
  have hSends := (ulSend_sends ts hSteady.sent).1
  have hWindow := hSends.window
  have hAcked := Nat.le_trans hSteady.counted hSteady.max
  have hResent : ul.maxRetransmitSeq ≤ ul.maxPktSent :=
    hSteady.resent
  have hGrown :
      ul.maxRetransmitSeq ≤ (ulSend ts ul).1.maxPktSent :=
    Nat.le_trans hSteady.resent
      (ulSend_max ts hSteady.sent).1
  rcases hSends.lastSent_range with ⟨hMore, hRange⟩
  simp only [lastSeq_eq] at hAcked
  constructor
  · intro hRecovery
    refine ⟨?_, ?_⟩
    · intro hStatus
      have hLess :=
        (hRecovery.uncovered
          (by rw [hSends.same.status]; exact hStatus)).1
      rw [hSends.maxRetransmitSeq,
        hSends.same.lastPktAcked] at hLess
      exact ⟨hLess, hResent⟩
    · intro hStatus
      have hFirst :=
        hRecovery.first (hSends.same.status.trans hStatus)
      rw [hSends.same.windowSize, hSends.same.lastPktAcked]
        at hFirst
      exact ⟨hFirst.1, BitVec.le_trans hMore hFirst.2⟩
  · intro hRecovery
    refine ⟨?_, ?_⟩
    · rw [hSends.same.status, hSends.maxRetransmitSeq,
        hSends.same.lastPktAcked]
      intro hStatus
      exact ⟨(hRecovery.uncovered hStatus).1, hGrown⟩
    · rw [hSends.same.status, hSends.same.windowSize,
        hSends.same.lastPktAcked]
      intro hStatus
      rcases hRecovery.first hStatus with ⟨hOne, hFirst⟩
      refine ⟨hOne, ?_⟩
      rw [hOne] at hWindow
      bv_omega

theorem UlEvent.apply_inRecovery_iff
    (e : UlEvent)
    {ul : Upload}
    (hSteady : ul.Steady)
    (hRecovery : ul.InRecovery) :
    (e.apply ul).1.InRecovery ↔ ¬ e.EndsAtOnce ul := by
  have hReady := e.prepare_steady hSteady
  have hSent :
      (e.apply ul).1.InRecovery ↔
        (e.prepare ul).1.InRecovery := by
    rw [e.apply_eq]
    split
    · exact ulSend_inRecovery_iff e.ts hReady
    · rfl
  rw [hSent]
  cases e with
  | ack now ts num =>
      exact ulHandleAck_inRecovery_iff now ts hSteady
        hRecovery
  | check now ts =>
      refine iff_of_true ?_ id
      simp only [prepare]
      split
      · exact hRecovery
      · split
        · exact ulLoss_inRecovery
            ((growCa_steady now hSteady).of_sampled
              ⟨rfl, rfl, rfl, rfl, rfl, rfl, rfl, rfl, rfl,
                rfl⟩)
        · exact growCa_inRecovery now hRecovery

end BtPeer

------------------------------------------------------------
-- Whole Runs
------------------------------------------------------------

namespace BtPeer

open EventMachine

/-
  A property of uploads that each event keeps unless it is one
  that `leaves` it, throughout a run.
-/
theorem throughout_upload_iff
    {P : Upload → Prop}
    {leaves : Upload → UlEvent → Prop}
    (hStep :
      ∀ (ul : Upload) (e : UlEvent),
        ul.Steady → P ul →
          (P (e.apply ul).1 ↔ ¬ leaves ul e))
    {start : UlRun}
    (hSteady : start.ul.Steady)
    (hInit : P start.ul)
    (es : List UlEvent) :
    (∀ fs, fs <+: es → P (run UlRun.step start fs).ul) ↔
      Along UlRun.step
        (fun (r : UlRun) (e : UlEvent) => ¬ leaves r.ul e)
        start es := by
  have hBoth :=
    @throughout_iff_along _ _ UlRun.step
      (fun r : UlRun => r.ul.Steady ∧ P r.ul)
      (fun _ _ => True)
      (fun (r : UlRun) (e : UlEvent) => ¬ leaves r.ul e)
      (fun r e hInv _ =>
        (and_iff_right (e.apply_steady hInv.1)).trans
          (hStep r.ul e hInv.1 hInv.2))
      start ⟨hSteady, hInit⟩ es
      (along_of_forall start (fun _ _ => trivial))
  rw [← hBoth]
  have hAlways (fs : List UlEvent) :
      (run UlRun.step start fs).ul.Steady :=
    run_invariant (fun r : UlRun => r.ul.Steady)
      (fun r e hInv => e.apply_steady hInv) hSteady fs
  constructor
  · intro hAll fs hPrefix
    exact ⟨hAlways fs, hAll fs hPrefix⟩
  · intro hAll fs hPrefix
    exact (hAll fs hPrefix).2

theorem launch_inPhase
    (ts : Word → Word)
    (pIndex hasIndex : Nat)
    (mapped : Option (Nat → Byte)) :
    (UlRun.launch ts pIndex hasIndex mapped).ul.InPhase := by
  have hInit :
      (ulInit pIndex hasIndex mapped).1.InPhase := by
    change (1 : Word) ≤ BitVec.ofNat 32 ssThresh
    decide
  have hSteady := ulInit_steady pIndex hasIndex mapped
  have hSends := (ulSend_sends ts hSteady.sent).1
  exact launch_cases (fun r => r.ul.InPhase) hInit
    ((Upload.InPhase.congr hSends.same.status
      hSends.same.windowSize hSends.ssThreshold).mpr hInit)

/-
  The window is at most the threshold in the slow start states
  and above it in the congestion avoidance states, throughout
  a run, exactly when no recovery ends with the window at the
  threshold and the window never wraps.
-/
theorem growth_phase_iff
    (ts : Word → Word)
    (pIndex hasIndex : Nat)
    (mapped : Option (Nat → Byte))
    (es : List UlEvent) :
    (∀ fs, fs <+: es →
      (run UlRun.step
        (UlRun.launch ts pIndex hasIndex mapped)
        fs).ul.InPhase) ↔
      Along UlRun.step (fun r e => ¬ e.LeavesPhase r.ul)
        (UlRun.launch ts pIndex hasIndex mapped) es :=
  throughout_upload_iff
    (fun _ e => e.apply_inPhase_iff)
    (launch_steady ts pIndex hasIndex mapped)
    (launch_inPhase ts pIndex hasIndex mapped) es

/-
  Segments 1, 2 and 3 are sent and 1 is acknowledged when a
  timeout sets the threshold to 2. The acknowledgements of 2
  and 3 end the recovery in slow start, with a window of 3.
-/
theorem growth_phase_passed :
    ¬ ∀ ts pIndex hasIndex mapped es,
        (run UlRun.step
          (UlRun.launch ts pIndex hasIndex mapped)
          es).ul.InPhase := by
  intro hAll
  have hPhase :=
    hAll (fun _ => 1) 0 0 (some (fun _ => 7))
      [.ack 2 (fun _ => 2) 1, .check 9000 (fun _ => 9000),
        .ack 9001 (fun _ => 9001) 2,
        .ack 9002 (fun _ => 9002) 3]
  have hWindow := hPhase.slowStart (by decide +kernel)
  revert hWindow
  decide +kernel

theorem launch_inRecovery
    (ts : Word → Word)
    (pIndex hasIndex : Nat)
    (mapped : Option (Nat → Byte)) :
    (UlRun.launch ts pIndex hasIndex
      mapped).ul.InRecovery := by
  have hInit :
      (ulInit pIndex hasIndex mapped).1.InRecovery := by
    refine ⟨?_, ?_⟩ <;> intro hStatus <;>
      simp [ulInit, Upload.zero] at hStatus
  exact launch_cases (fun r => r.ul.InRecovery) hInit
    ((ulSend_inRecovery_iff ts
      (ulInit_steady pIndex hasIndex mapped)).mpr hInit)

/-
  The recovery states end with the flight that was lost,
  throughout a run, exactly when the first acknowledgement
  after a loss never covers all that was sent before it.
-/
theorem recovery_covers_iff
    (ts : Word → Word)
    (pIndex hasIndex : Nat)
    (mapped : Option (Nat → Byte))
    (es : List UlEvent) :
    (∀ fs, fs <+: es →
      (run UlRun.step
        (UlRun.launch ts pIndex hasIndex mapped)
        fs).ul.InRecovery) ↔
      Along UlRun.step (fun r e => ¬ e.EndsAtOnce r.ul)
        (UlRun.launch ts pIndex hasIndex mapped) es :=
  throughout_upload_iff
    (fun _ e => e.apply_inRecovery_iff)
    (launch_steady ts pIndex hasIndex mapped)
    (launch_inRecovery ts pIndex hasIndex mapped) es

/-
  The only segment sent times out and is acknowledged: the
  upload is in `FRSS` with nothing left to recover.
-/
theorem recovery_outlives_flight :
    ¬ ∀ ts pIndex hasIndex mapped es,
        (run UlRun.step
          (UlRun.launch ts pIndex hasIndex mapped)
          es).ul.InRecovery := by
  intro hAll
  have hRecovery :=
    hAll (fun _ => 1) 0 0 (some (fun _ => 7))
      [.check 9000 (fun _ => 9000),
        .ack 9001 (fun _ => 9001) 1]
  have hLess :=
    (hRecovery.uncovered (Or.inl (by decide +kernel))).1
  revert hLess
  decide +kernel

end BtPeer
