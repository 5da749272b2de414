import BtPeer.Transfer.Rounds
import Mathlib.Data.List.Nodup

/-
  Which acknowledgements update the round trip estimate, and
  how often the segment they measure was sent.

  Key definitions include:
    * `sentCount`
    * `Upload.Samples`
    * `UlEvent.Karn`
    * `UlRun.Counted`

  Key theorems include:
    * `ulHandleAck_estimate`
    * `UlRun.Counted.step`
    * `UlRun.CountedWhenRead.karn_iff`
    * `karn_rule_iff`
-/

------------------------------------------------------------
-- Samples
------------------------------------------------------------

namespace BtPeer

namespace Upload

/- The number `ack` gives a sample of the round trip time. -/
structure Samples
    (ul : Upload)
    (ack : Word) : Prop where
  takes : ul.Takes ack
  status :
    ul.status = .slowStart ∨
      ul.status = .congestionAvoidance
  recorded : ul.seqTs ack.toNat ≠ 0

end Upload

theorem ackStatus_estimate
    (ul : Upload)
    (ack : Word) :
    (ackStatus ul ack).rtt = ul.rtt ∧
      (ackStatus ul ack).dev = ul.dev := by
  unfold ackStatus
  split
  case h_3 => split <;> exact ⟨rfl, rfl⟩
  case h_5 => split <;> exact ⟨rfl, rfl⟩
  all_goals exact ⟨rfl, rfl⟩

theorem newAck_estimate
    (ul : Upload)
    (ack : Word) :
    (newAck ul ack).rtt = ul.rtt ∧
      (newAck ul ack).dev = ul.dev := by
  unfold newAck
  split
  · exact ⟨rfl, rfl⟩
  · exact ackStatus_estimate ul ack

theorem allowDup_estimate
    (ul : Upload)
    (ack : Word) :
    (allowDup ul ack).rtt = ul.rtt ∧
      (allowDup ul ack).dev = ul.dev := by
  unfold allowDup
  split <;> exact ⟨rfl, rfl⟩

/- The estimate changes by the samples and nothing else. -/
theorem ulHandleAck_estimate
    (now : Word)
    (ul : Upload)
    (ack : Word) :
    (ul.Samples ack →
      ((ulHandleAck now ul ack).rtt,
          (ulHandleAck now ul ack).dev) =
        updateRtt now ul.rtt ul.dev
          (ul.seqTs ack.toNat)) ∧
      (¬ ul.Samples ack →
        (ulHandleAck now ul ack).rtt = ul.rtt ∧
          (ulHandleAck now ul ack).dev = ul.dev) := by
  by_cases hTakes : ul.Takes ack
  · have hSampled :
        (ulHandleAck now ul ack).rtt =
            (sampleRtt now ul ack).rtt ∧
          (ulHandleAck now ul ack).dev =
            (sampleRtt now ul ack).dev := by
      rw [← (allowDup_estimate (sampleRtt now ul ack) ack).1,
        ← (allowDup_estimate (sampleRtt now ul ack) ack).2,
        ulHandleAck_taken hTakes]
      dsimp only
      split
      · exact newAck_estimate _ ack
      · split
        · exact ⟨rfl, rfl⟩
        · exact newAck_estimate _ ack
    rw [hSampled.1, hSampled.2]
    constructor
    · intro hSamples
      rcases hSamples.status with hStatus | hStatus <;>
        simp only [sampleRtt, hStatus]
    · intro hNot
      unfold sampleRtt
      split
      case h_3 => exact ⟨rfl, rfl⟩
      all_goals
        rename_i hStatus
        -- the segment has no time to measure from
        have hZero : ul.seqTs ack.toNat = 0 := by
          by_contra hRecorded
          exact hNot ⟨hTakes, by simp [hStatus], hRecorded⟩
        simp only [updateRtt, hZero, if_true, and_self]
  · refine ⟨fun hSamples => absurd hSamples.takes hTakes, ?_⟩
    intro _
    rcases ulHandleAck_ignored hTakes with hOut | hOut <;>
      rw [hOut] <;> exact ⟨rfl, rfl⟩

/- How often segment `k` was sent. -/
def sentCount
    (log : List Transmission)
    (k : Nat) : Nat :=
  (log.map (fun t => t.seq.toNat)).count k

namespace UlEvent

/- No sample is taken of a segment sent more than once. -/
def Karn
    (r : UlRun) : UlEvent → Prop
| .ack _ _ num =>
    r.ul.Samples num → sentCount r.log num.toNat ≤ 1
| .check _ _ => True

/-
  A sample of a segment that was sent more than once: of the
  number that ended a recovery and arrives again, or after the
  clock failed behind some segment, which is then sent again
  without being counted as a retransmission.
-/
def Ambiguous
    (r : UlRun) : UlEvent → Prop
| .ack _ _ num =>
    r.ul.Samples num ∧ 1 < sentCount r.log num.toNat ∧
      ((num = r.ul.lastPktAcked ∧
          num = r.ul.maxRetransmitSeq) ∨
        ∃ t ∈ r.log, t.time = 0)
| .check _ _ => False

/- The clock can be read behind every segment sent. -/
def ReadsTimes
    (r : UlRun)
    (e : UlEvent) : Prop :=
  ∀ t ∈ e.sends r.ul, t.time ≠ 0

end UlEvent

end BtPeer

------------------------------------------------------------
-- How Often A Segment Is Sent
------------------------------------------------------------

namespace BtPeer

theorem sentCount_append
    (log log' : List Transmission)
    (k : Nat) :
    sentCount (log ++ log') k =
      sentCount log k + sentCount log' k := by
  simp only [sentCount, List.map_append, List.count_append]

/- One call of `ul_send` sends a segment at most once. -/
theorem sentCount_sends
    {ts : Word → Word}
    {rto : Word}
    {ul ul' : Upload}
    {sent : List PktParam}
    {ok : Bool}
    (hSends : ul.Sends ts ul' sent ok)
    (k : Nat) :
    sentCount (transmissions ts rto sent) k =
      if ul.lastPktSent.toNat < k ∧
          k ≤ ul.lastPktSent.toNat + sent.length then 1
      else 0 := by
  have hSeqs :
      (transmissions ts rto sent).map
          (fun t => t.seq.toNat) =
        List.range' (ul.lastPktSent.toNat + 1)
          sent.length := by
    rw [← hSends.seqs]
    exact List.map_map
  unfold sentCount
  rw [hSeqs]
  by_cases hIn :
      ul.lastPktSent.toNat < k ∧
        k ≤ ul.lastPktSent.toNat + sent.length
  · rw [if_pos hIn]
    refine List.count_eq_one_of_mem List.nodup_range' ?_
    rw [List.mem_range'_1]
    omega
  · rw [if_neg hIn]
    refine List.count_eq_zero.mpr ?_
    rw [List.mem_range'_1]
    omega

/-
  Only segments up to `max_retransmit_seq` are sent more than
  once, and they are all acknowledged in slow start and in
  congestion avoidance.
-/
structure UlRun.Counted (r : UlRun) : Prop where
  steady : r.ul.Steady
  unseen :
    ∀ k, r.ul.maxPktSent.toNat < k → sentCount r.log k = 0
  once :
    ∀ k, r.ul.maxRetransmitSeq.toNat < k →
      sentCount r.log k ≤ 1
  flight :
    r.ul.maxPktSent.toNat ≤
      max r.ul.lastPktSent.toNat
        r.ul.maxRetransmitSeq.toNat
  settled :
    r.ul.status = .slowStart ∨
        r.ul.status = .congestionAvoidance →
      r.ul.maxRetransmitSeq ≤ r.ul.lastPktAcked
  stamped :
    ∀ k, 0 < sentCount r.log k → r.ul.seqTs k ≠ 0

theorem UlRun.Counted.of_sampled
    {ul ul' : Upload}
    {log : List Transmission}
    (hCounted : UlRun.Counted ⟨ul, log⟩)
    (hSame : ul.Sampled ul') :
    UlRun.Counted ⟨ul', log⟩ where
  steady := hCounted.steady.of_sampled hSame
  unseen := by
    simpa only [hSame.maxPktSent] using hCounted.unseen
  once := by
    simpa only [hSame.maxRetransmitSeq] using hCounted.once
  flight := by
    simpa only [hSame.maxPktSent, hSame.lastPktSent,
      hSame.maxRetransmitSeq] using hCounted.flight
  settled := by
    simpa only [hSame.status, hSame.maxRetransmitSeq,
      hSame.lastPktAcked] using hCounted.settled
  stamped := by
    simpa only [hSame.seqTs] using hCounted.stamped

/- After a loss all that was sent may be sent again. -/
theorem UlRun.Counted.loss
    {ul : Upload}
    {log : List Transmission}
    (hCounted : UlRun.Counted ⟨ul, log⟩) :
    UlRun.Counted ⟨ulLoss ul, log⟩ where
  steady := ulLoss_steady hCounted.steady
  unseen := hCounted.unseen
  once := by
    intro k hPast
    have hUnseen := hCounted.unseen k hPast
    exact Nat.le_trans (Nat.le_of_eq hUnseen) (Nat.zero_le 1)
  flight := Nat.le_max_right _ _
  settled := by
    intro hStatus
    simp [ulLoss] at hStatus
  stamped := hCounted.stamped

/- The recovery ends with what was lost acknowledged. -/
theorem ackStatus_settled
    {ul : Upload}
    {ack : Word}
    (hSettled :
      ul.status = .slowStart ∨
          ul.status = .congestionAvoidance →
        ul.maxRetransmitSeq ≤ ul.lastPktAcked)
    (hNew : ul.lastPktAcked < ack)
    (hStatus :
      (ackStatus ul ack).status = .slowStart ∨
        (ackStatus ul ack).status = .congestionAvoidance) :
    ul.maxRetransmitSeq ≤ ack := by
  have hBefore
      (hOld :
        ul.status = .slowStart ∨
          ul.status = .congestionAvoidance) :
      ul.maxRetransmitSeq ≤ ack :=
    BitVec.le_trans (hSettled hOld) (BitVec.le_of_lt hNew)
  cases hOld : ul.status with
  | slowStart => exact hBefore (Or.inl hOld)
  | congestionAvoidance => exact hBefore (Or.inr hOld)
  | fastRetransmit =>
      simp only [ackStatus, hOld] at hStatus
      split at hStatus <;> simp [hOld] at hStatus
  | fastRetransmitSs =>
      simp only [ackStatus, hOld] at hStatus
      by_contra hEnd
      rw [if_neg hEnd] at hStatus
      split at hStatus <;> simp at hStatus
  | fastRetransmitCa =>
      simp only [ackStatus, hOld] at hStatus
      by_contra hEnd
      rw [if_neg hEnd] at hStatus
      simp [hOld] at hStatus

theorem UlRun.Counted.newAck
    {ul : Upload}
    {log : List Transmission}
    {ack : Word}
    (hCounted : UlRun.Counted ⟨ul, log⟩)
    (hOpen : ul.finished = false)
    (hNew : ul.lastPktAcked < ack)
    (hMax : ack ≤ ul.maxPktSent) :
    UlRun.Counted ⟨newAck ul ack, log⟩ := by
  have hSteady :=
    newAck_steady hCounted.steady hOpen hNew hMax
  have hSame := ackStatus_sameCounters ul ack
  have hKept := ackStatus_maxRetransmitSeq ul ack
  have hTimers := ackStatus_timers ul ack
  have hFlight := hCounted.flight
  rw [newAck_eq hNew] at hSteady ⊢
  refine ⟨hSteady, ?_, ?_, ?_, ?_, ?_⟩
  · rw [hSame.maxPktSent]
    exact hCounted.unseen
  · rw [hKept]
    exact hCounted.once
  · simp only [toNat_wordMax, hSame.maxPktSent, hKept,
      hSame.lastPktSent] at hFlight ⊢
    omega
  · intro hStatus
    rw [hKept]
    exact ackStatus_settled hCounted.settled hNew hStatus
  · rw [hTimers.1]
    exact hCounted.stamped

theorem UlRun.Counted.growCa
    (now : Word)
    {ul : Upload}
    {log : List Transmission}
    (hCounted : UlRun.Counted ⟨ul, log⟩) :
    UlRun.Counted ⟨growCa now ul, log⟩ := by
  have hSteady := growCa_steady now hCounted.steady
  rcases growCa_eq now ul with ⟨caTs, hEq⟩
  rw [hEq] at hSteady ⊢
  exact ⟨hSteady, hCounted.unseen, hCounted.once,
    hCounted.flight, hCounted.settled, hCounted.stamped⟩

theorem UlRun.Counted.prepare
    {r : UlRun}
    (hCounted : r.Counted)
    (e : UlEvent) :
    UlRun.Counted ⟨(e.prepare r.ul).1, r.log⟩ :=
  UlEvent.prepare_invariant
    (fun ul => UlRun.Counted ⟨ul, r.log⟩)
    (fun _ _ hCounted hSame => hCounted.of_sampled hSame)
    (fun _ hCounted => hCounted.loss)
    (fun _ _ hCounted hOpen hNew hMax =>
      hCounted.newAck hOpen hNew hMax)
    (fun now _ hCounted => hCounted.growCa now) e hCounted

/- What is sent behind the last loss is sent once. -/
theorem UlRun.Counted.send
    {ts : Word → Word}
    {ul : Upload}
    {log : List Transmission}
    (hCounted : UlRun.Counted ⟨ul, log⟩)
    (hTimes :
      ∀ t ∈ transmissions ts (ulSend ts ul).1.rto
        (ulSend ts ul).2.1, t.time ≠ 0) :
    UlRun.Counted
      ⟨(ulSend ts ul).1,
        log ++ transmissions ts (ulSend ts ul).1.rto
          (ulSend ts ul).2.1⟩ := by
  have hSteady := hCounted.steady
  have hFlight := hCounted.flight
  rcases ulSend_sends ts hSteady.sent with ⟨hSends, hMax⟩
  have hRead :
      ∀ pp ∈ (ulSend ts ul).2.1, ts pp.seq ≠ 0 := by
    intro pp hMem
    exact hTimes _ (List.mem_map.mpr ⟨pp, hMem, rfl⟩)
  have hOk := hSends.read.mpr hRead
  have hSent := hSends.counted
  rw [if_pos hOk] at hSent hMax
  simp only [Nat.add_zero] at hSent
  have hCount (k : Nat) :
      sentCount
          (log ++ transmissions ts (ulSend ts ul).1.rto
            (ulSend ts ul).2.1) k =
        sentCount log k +
          if ul.lastPktSent.toNat < k ∧
              k ≤ (ulSend ts ul).1.lastPktSent.toNat then 1
          else 0 := by
    rw [sentCount_append, sentCount_sends hSends, hSent]
  refine ⟨ulSend_steady ts hSteady, ?_, ?_, ?_, ?_, ?_⟩
  · intro k hPast
    simp only [hMax, toNat_wordMax] at hPast
    rw [hCount, hCounted.unseen k (by dsimp only; omega),
      if_neg (by omega)]
  · intro k hPast
    simp only [hSends.maxRetransmitSeq] at hPast
    have hOnce := hCounted.once k hPast
    rw [hCount]
    split
    · rename_i hIn
      -- it is behind everything sent before
      have hUnseen :=
        hCounted.unseen k
          (Nat.lt_of_le_of_lt hFlight
            (Nat.max_lt.mpr ⟨hIn.1, hPast⟩))
      rw [hUnseen]
    · exact hOnce
  · simp only [hMax, toNat_wordMax,
      hSends.maxRetransmitSeq] at hFlight ⊢
    omega
  · rw [hSends.same.status, hSends.maxRetransmitSeq,
      hSends.same.lastPktAcked]
    exact hCounted.settled
  · intro k hPos
    by_cases hIn :
        ∃ pp ∈ (ulSend ts ul).2.1, pp.seq.toNat = k
    · rcases hIn with ⟨pp, hMem, rfl⟩
      rw [(hSends.stamped pp hMem).1]
      exact hRead pp hMem
    · have hOut :
          ∀ pp ∈ (ulSend ts ul).2.1, pp.seq.toNat ≠ k :=
        fun pp hMem hEq => hIn ⟨pp, hMem, hEq⟩
      rw [(hSends.kept k hOut).1]
      apply hCounted.stamped
      rw [hCount, if_neg] at hPos
      · exact hPos
      · rw [hSent, ← hSends.mem_iff]
        exact hIn

theorem UlRun.Counted.step
    {r : UlRun}
    (hCounted : r.Counted)
    {e : UlEvent}
    (hTimes : e.ReadsTimes r) :
    (r.step e).Counted :=
  step_of_parts UlRun.Counted (hCounted.prepare e)
    (fun hReady hSends => hReady.send (hSends ▸ hTimes))

/- As long as the clock never failed the log is counted. -/
def UlRun.CountedWhenRead (r : UlRun) : Prop :=
  (∀ t ∈ r.log, t.time ≠ 0) → r.Counted

theorem UlRun.CountedWhenRead.step
    {r : UlRun}
    (hCounted : r.CountedWhenRead)
    (e : UlEvent) :
    (r.step e).CountedWhenRead := by
  intro hTimes
  have hSplit := List.forall_mem_append.mp hTimes
  exact (hCounted hSplit.1).step hSplit.2

theorem launch_counted
    (ts : Word → Word)
    (pIndex hasIndex : Nat)
    (mapped : Option (Nat → Byte)) :
    (UlRun.launch ts pIndex hasIndex
      mapped).CountedWhenRead := by
  have hInit :
      UlRun.Counted
        ⟨(ulInit pIndex hasIndex mapped).1, []⟩ := by
    refine ⟨ulInit_steady pIndex hasIndex mapped,
      fun _ _ => rfl, fun _ _ => Nat.zero_le 1,
      Nat.zero_le _, fun _ => BitVec.le_refl _, ?_⟩
    intro k hPos
    exact absurd hPos (Nat.lt_irrefl 0)
  refine launch_cases UlRun.CountedWhenRead
    (fun _ => hInit) ?_
  intro hTimes
  have hSent := @UlRun.Counted.send ts _ _ hInit hTimes
  rw [List.nil_append] at hSent
  exact hSent

end BtPeer

------------------------------------------------------------
-- Karn's Rule
------------------------------------------------------------

namespace BtPeer

open EventMachine

/- What a sample measures was sent once or ended a recovery. -/
theorem UlRun.CountedWhenRead.karn_iff
    {r : UlRun}
    (hCounted : r.CountedWhenRead)
    (e : UlEvent) :
    e.Karn r ↔ ¬ e.Ambiguous r := by
  cases e with
  | check now ts => exact iff_of_true trivial id
  | ack now ts num =>
      constructor
      · rintro hKarn ⟨hSamples, hTwice, _⟩
        exact absurd (hKarn hSamples) (Nat.not_le.mpr hTwice)
      · intro hClear hSamples
        by_contra hTwice
        have hMany : 1 < sentCount r.log num.toNat :=
          Nat.lt_of_not_le hTwice
        have hRead : ∀ t ∈ r.log, t.time ≠ 0 :=
          fun t hMem hZero =>
            hClear ⟨hSamples, hMany, Or.inr ⟨t, hMem, hZero⟩⟩
        have hLog := hCounted hRead
        have hResent :
            num.toNat ≤ r.ul.maxRetransmitSeq.toNat := by
          by_contra hPast
          exact hTwice
            (hLog.once _ (Nat.lt_of_not_le hPast))
        have hLow : r.ul.lastPktAcked.toNat ≤ num.toNat :=
          hSamples.takes.low
        have hSettled :
            r.ul.maxRetransmitSeq.toNat ≤
              r.ul.lastPktAcked.toNat :=
          hLog.settled hSamples.status
        refine hClear
          ⟨hSamples, hMany, Or.inl ⟨?_, ?_⟩⟩
        · exact BitVec.eq_of_toNat_eq (by omega)
        · exact BitVec.eq_of_toNat_eq (by omega)

end BtPeer
