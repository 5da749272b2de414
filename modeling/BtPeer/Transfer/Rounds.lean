import BtPeer.Transfer.Pacing

/-
  What holds of every upload, whatever is acknowledged,
  whenever the timers are checked and whatever the clock
  reads: the counters, the window and the threshold stay in
  range.

  Key definitions include:
    * `Upload.Steady`
    * `UlRun.Reached`
    * `Upload.Takes`

  Key theorems include:
    * `UlEvent.prepare_steady`
    * `ulSend_steady`
    * `UlRun.Reached.steady`
    * `ulHandleAck_recovering`
    * `ulHandleAck_counting`
-/

------------------------------------------------------------
-- Steady Uploads
------------------------------------------------------------

namespace BtPeer

namespace Upload

/-
  A segment that was sent is not counted in `max_pkt_sent`
  when the clock failed behind it, so only the acknowledged
  segments are below both counters.
-/
structure Steady (ul : Upload) : Prop where
  acked : ul.lastPktAcked.toNat ≤ ul.lastPktSent.toNat
  sent : ul.lastPktSent.toNat ≤ lastSeq
  counted : ul.lastPktAcked.toNat ≤ ul.maxPktSent.toNat
  max : ul.maxPktSent.toNat ≤ lastSeq
  resent : ul.maxRetransmitSeq.toNat ≤ ul.maxPktSent.toNat
  finished :
    ul.finished = true ↔ lastSeq ≤ ul.lastPktAcked.toNat
  tuned : ul.Tuned

theorem Steady.of_sampled
    {ul ul' : Upload}
    (hSteady : ul.Steady)
    (hSame : Sampled ul ul') :
    ul'.Steady := by
  have hTuned := hSteady.tuned.of_sampled hSame
  cases hSteady
  refine ⟨?_, ?_, ?_, ?_, ?_, ?_, hTuned⟩ <;>
    simp only [hSame.lastPktAcked, hSame.lastPktSent,
      hSame.maxPktSent, hSame.maxRetransmitSeq,
      hSame.finished] <;>
    assumption

/- The segment waited for is one of the chunk. -/
theorem Steady.next_le
    {ul : Upload}
    (hSteady : ul.Steady)
    (hOpen : ul.finished = false) :
    ul.lastPktAcked.toNat < lastSeq := by
  by_contra hAll
  have hDone := hSteady.finished.mpr (Nat.le_of_not_lt hAll)
  rw [hOpen] at hDone
  cases hDone

end Upload

theorem ulLoss_steady
    {ul : Upload}
    (hSteady : ul.Steady) :
    (ulLoss ul).Steady :=
  ⟨Nat.le_refl _, Nat.le_trans hSteady.counted hSteady.max,
    hSteady.counted, hSteady.max, Nat.le_refl _,
    hSteady.finished, ulLoss_tuned ul⟩

theorem ackStatus_maxRetransmitSeq
    (ul : Upload)
    (ack : Word) :
    (ackStatus ul ack).maxRetransmitSeq =
      ul.maxRetransmitSeq := by
  unfold ackStatus
  split
  case h_3 => split <;> rfl
  case h_5 => split <;> rfl
  all_goals rfl

theorem newAck_steady
    {ul : Upload}
    {ack : Word}
    (hSteady : ul.Steady)
    (hOpen : ul.finished = false)
    (hNew : ul.lastPktAcked < ack)
    (hMax : ack ≤ ul.maxPktSent) :
    (newAck ul ack).Steady := by
  have hSame := ackStatus_sameCounters ul ack
  have hLast := Nat.le_trans hMax hSteady.max
  have hTuned := newAck_tuned hSteady.tuned hNew hLast
  rw [newAck_eq hNew] at hTuned ⊢
  refine ⟨?_, ?_, ?_, ?_, ?_, ?_, hTuned⟩
  · rw [toNat_wordMax]
    exact Nat.le_max_right _ _
  · rw [toNat_wordMax, hSame.lastPktSent]
    exact Nat.max_le.mpr ⟨hSteady.sent, hLast⟩
  · rw [hSame.maxPktSent]
    exact hMax
  · rw [hSame.maxPktSent]
    exact hSteady.max
  · rw [ackStatus_maxRetransmitSeq, hSame.maxPktSent]
    exact hSteady.resent
  · rw [hSame.finished, hOpen, Bool.false_or,
      decide_eq_true_eq]

theorem growCa_steady
    (now : Word)
    {ul : Upload}
    (hSteady : ul.Steady) :
    (growCa now ul).Steady := by
  have hTuned := growCa_tuned now hSteady.tuned
  rcases growCa_eq now ul with ⟨caTs, hEq⟩
  rw [hEq] at hTuned ⊢
  exact ⟨hSteady.acked, hSteady.sent, hSteady.counted,
    hSteady.max, hSteady.resent, hSteady.finished, hTuned⟩

theorem UlEvent.prepare_steady
    (e : UlEvent)
    {ul : Upload}
    (hSteady : ul.Steady) :
    (e.prepare ul).1.Steady :=
  prepare_invariant Upload.Steady
    (fun _ _ hSteady hSame => hSteady.of_sampled hSame)
    (fun _ hSteady => ulLoss_steady hSteady)
    (fun _ _ hSteady hOpen hNew hMax =>
      newAck_steady hSteady hOpen hNew hMax)
    (fun now _ hSteady => growCa_steady now hSteady) e hSteady

/- `max_pkt_sent` only grows, up to what was sent. -/
theorem ulSend_max
    (ts : Word → Word)
    {ul : Upload}
    (hLast : ul.lastPktSent.toNat ≤ lastSeq) :
    ul.maxPktSent.toNat ≤ (ulSend ts ul).1.maxPktSent.toNat ∧
      (ulSend ts ul).1.maxPktSent.toNat ≤
        max ul.maxPktSent.toNat
          (ulSend ts ul).1.lastPktSent.toNat := by
  have hMax := (ulSend_sends ts hLast).2
  rw [hMax]
  split
  · rw [toNat_wordMax]
    exact ⟨Nat.le_max_left _ _, Nat.le_refl _⟩
  · exact ⟨Nat.le_refl _, Nat.le_max_left _ _⟩

/- The counter of what was sent, without the failed segment. -/
theorem Upload.Sends.lastSent_range
    {ts : Word → Word}
    {ul ul' : Upload}
    {sent : List PktParam}
    {ok : Bool}
    (hSends : ul.Sends ts ul' sent ok) :
    ul.lastPktSent.toNat ≤ ul'.lastPktSent.toNat ∧
      ul'.lastPktSent.toNat ≤
        ul.lastPktSent.toNat + sent.length := by
  have hCounted := hSends.counted
  refine ⟨?_, by omega⟩
  cases hOk : ok with
  | true =>
      rw [if_pos hOk] at hCounted
      omega
  | false =>
      -- the clock failed behind some segment
      have hSome : sent ≠ [] := by
        rintro rfl
        have hRead :=
          hSends.read.mpr (fun pp hMem => by cases hMem)
        rw [hOk] at hRead
        cases hRead
      have hLength := List.length_pos_of_ne_nil hSome
      split at hCounted <;> omega

theorem ulSend_steady
    (ts : Word → Word)
    {ul : Upload}
    (hSteady : ul.Steady) :
    (ulSend ts ul).1.Steady := by
  have hSends := (ulSend_sends ts hSteady.sent).1
  have hLast := hSends.last
  have hWindow := hSteady.tuned.window
  rcases ulSend_max ts hSteady.sent with ⟨hLow, hHigh⟩
  rcases hSends.lastSent_range with ⟨hMore, hSent⟩
  have hAcked := hSends.same.lastPktAcked
  refine ⟨?_, ?_, ?_, ?_, ?_, ?_, ⟨?_, ?_, ?_⟩⟩
  · rw [hAcked]
    exact Nat.le_trans hSteady.acked hMore
  · exact Nat.le_trans hSent hLast
  · rw [hAcked]
    exact Nat.le_trans hSteady.counted hLow
  · exact Nat.le_trans hHigh
      (Nat.max_le.mpr
        ⟨hSteady.max, Nat.le_trans hSent hLast⟩)
  · rw [hSends.maxRetransmitSeq]
    exact Nat.le_trans hSteady.resent hLow
  · rw [hSends.same.finished, hAcked]
    exact hSteady.finished
  · rw [hSends.ssThreshold]
    exact hSteady.tuned.low
  · rw [hSends.ssThreshold]
    exact hSteady.tuned.high
  · simp only [Upload.SmallWindow, hSends.same.status,
      hSends.same.windowSize, hSends.ssThreshold]
    exact hWindow

theorem UlEvent.apply_steady
    (e : UlEvent)
    {ul : Upload}
    (hSteady : ul.Steady) :
    (e.apply ul).1.Steady := by
  have hReady := e.prepare_steady hSteady
  rw [e.apply_eq]
  split
  · exact ulSend_steady e.ts hReady
  · exact hReady

theorem ulInit_steady
    (pIndex hasIndex : Nat)
    (mapped : Option (Nat → Byte)) :
    (ulInit pIndex hasIndex mapped).1.Steady := by
  have hPaced := ulInit_paced pIndex hasIndex mapped
  exact ⟨hPaced.acked, Nat.zero_le _, Nat.zero_le _,
    hPaced.max, Nat.zero_le _, hPaced.finished,
    hPaced.tuned⟩

end BtPeer

------------------------------------------------------------
-- Reachable Uploads
------------------------------------------------------------

namespace BtPeer

open EventMachine

/- `start_upload`, and then any events. -/
def UlRun.Reached (r : UlRun) : Prop :=
  ∃ ts pIndex hasIndex mapped es,
    run UlRun.step
      (UlRun.launch ts pIndex hasIndex mapped) es = r

/- What is sent at the start is sent by one `ul_send`. -/
theorem launch_cases
    (inv : UlRun → Prop)
    {ts : Word → Word}
    {pIndex hasIndex : Nat}
    {mapped : Option (Nat → Byte)}
    (hInit : inv ⟨(ulInit pIndex hasIndex mapped).1, []⟩)
    (hSend :
      inv
        ⟨(ulSend ts (ulInit pIndex hasIndex mapped).1).1,
          transmissions ts
            (ulSend ts
              (ulInit pIndex hasIndex mapped).1).1.rto
            (ulSend ts
              (ulInit pIndex hasIndex mapped).1).2.1⟩) :
    inv (UlRun.launch ts pIndex hasIndex mapped) := by
  cases mapped with
  | none => exact hInit
  | some content => exact hSend

/- An invariant of sending and of every event. -/
theorem UlRun.Reached.invariant
    (inv : UlRun → Prop)
    (hLaunch :
      ∀ ts pIndex hasIndex mapped,
        inv (UlRun.launch ts pIndex hasIndex mapped))
    (hStep : ∀ r e, inv r → inv (r.step e))
    {r : UlRun}
    (hReached : r.Reached) :
    inv r := by
  rcases hReached with
    ⟨ts, pIndex, hasIndex, mapped, es, rfl⟩
  exact run_invariant inv hStep
    (hLaunch ts pIndex hasIndex mapped) es

theorem launch_steady
    (ts : Word → Word)
    (pIndex hasIndex : Nat)
    (mapped : Option (Nat → Byte)) :
    (UlRun.launch ts pIndex hasIndex mapped).ul.Steady := by
  have hInit := ulInit_steady pIndex hasIndex mapped
  exact launch_cases (fun r => r.ul.Steady) hInit
    (ulSend_steady ts hInit)

theorem UlRun.Reached.steady
    {r : UlRun}
    (hReached : r.Reached) :
    r.ul.Steady :=
  hReached.invariant (fun r => r.ul.Steady) launch_steady
    (fun _ e hSteady => e.apply_steady hSteady)

end BtPeer

------------------------------------------------------------
-- Acknowledgements That Are Taken
------------------------------------------------------------

namespace BtPeer

namespace Upload

/- `ul_handle_ack` takes the number `ack` in this state. -/
structure Takes
    (ul : Upload)
    (ack : Word) : Prop where
  opened : ul.finished = false
  pos : ack ≠ 0
  low : ul.lastPktAcked ≤ ack
  high : ack ≤ ul.maxPktSent

/- The number acknowledges something new. -/
structure TakesNew
    (ul : Upload)
    (ack : Word) : Prop where
  opened : ul.finished = false
  low : ul.lastPktAcked < ack
  high : ack ≤ ul.maxPktSent

instance
    (ul : Upload)
    (ack : Word) :
    Decidable (ul.Takes ack) :=
  decidable_of_iff
    (ul.finished = false ∧ ack ≠ 0 ∧
      ul.lastPktAcked ≤ ack ∧ ack ≤ ul.maxPktSent)
    ⟨fun h => ⟨h.1, h.2.1, h.2.2.1, h.2.2.2⟩,
      fun h => ⟨h.opened, h.pos, h.low, h.high⟩⟩

instance
    (ul : Upload)
    (ack : Word) :
    Decidable (ul.TakesNew ack) :=
  decidable_of_iff
    (ul.finished = false ∧ ul.lastPktAcked < ack ∧
      ack ≤ ul.maxPktSent)
    ⟨fun h => ⟨h.1, h.2.1, h.2.2⟩,
      fun h => ⟨h.opened, h.low, h.high⟩⟩

theorem TakesNew.takes
    {ul : Upload}
    {ack : Word}
    (hNew : ul.TakesNew ack) :
    ul.Takes ack where
  opened := hNew.opened
  pos := by
    rintro rfl
    have hLow := hNew.low
    rw [BitVec.lt_def] at hLow
    exact Nat.not_lt_zero _ hLow
  low := BitVec.le_of_lt hNew.low
  high := hNew.high

end Upload

/- A number that is taken is sampled and counted. -/
theorem ulHandleAck_taken
    {now : Word}
    {ul : Upload}
    {ack : Word}
    (hTakes : ul.Takes ack) :
    ulHandleAck now ul ack =
      let ul := allowDup (sampleRtt now ul ack) ack
      if ul.status = .fastRetransmit then newAck ul ack
      else
        let cnt := ul.ackCnt ack.toNat + 1
        if maxDupAck < cnt then
          ulLoss
            { ul with
              ackCnt :=
                Function.update ul.ackCnt ack.toNat 0 }
        else
          newAck
            { ul with
              ackCnt :=
                Function.update ul.ackCnt ack.toNat cnt }
            ack := by
  have hOpen : ¬ ul.finished = true := by
    rw [hTakes.opened]
    exact Bool.false_ne_true
  have hValid :
      ¬ (ul.maxPktSent < ack ∨ ack < ul.lastPktAcked) := by
    rintro (hAbove | hBelow)
    · exact BitVec.not_lt.mpr hTakes.high hAbove
    · exact BitVec.not_lt.mpr hTakes.low hBelow
  unfold ulHandleAck
  rw [if_neg hOpen, if_neg hTakes.pos, if_neg hValid]

/- Any other number leaves all but the timeout count. -/
theorem ulHandleAck_ignored
    {now : Word}
    {ul : Upload}
    {ack : Word}
    (hIgnores : ¬ ul.Takes ack) :
    ulHandleAck now ul ack = ul ∨
      ulHandleAck now ul ack = { ul with timeoutCnt := 0 } := by
  unfold ulHandleAck
  split
  · exact Or.inl rfl
  · rename_i hOpen
    split
    · exact Or.inr rfl
    · rename_i hPos
      split
      · exact Or.inl rfl
      · rename_i hValid
        refine absurd ⟨?_, hPos, ?_, ?_⟩ hIgnores
        · exact (Bool.not_eq_true _).mp hOpen
        · exact BitVec.not_lt.mp
            (fun hBelow => hValid (Or.inr hBelow))
        · exact BitVec.not_lt.mp
            (fun hAbove => hValid (Or.inl hAbove))

theorem maxDupSeq_nonpos
    (ul : Upload)
    (ack : Word) :
    maxDupSeq ul ack ≤ 0 :=
  Int.min_le_left _ _

namespace Upload

/- One of the three states after a loss. -/
def Recovering (ul : Upload) : Prop :=
  ul.status = .fastRetransmit ∨
    ul.status = .fastRetransmitSs ∨
      ul.status = .fastRetransmitCa

end Upload

/- After a loss no duplicate count causes another one. -/
theorem ulHandleAck_recovering
    {now : Word}
    {ul : Upload}
    {ack : Word}
    (hTakes : ul.Takes ack)
    (hStatus : ul.Recovering) :
    ∃ ul',
      ul.Sampled ul' ∧
        ulHandleAck now ul ack = newAck ul' ack := by
  rw [ulHandleAck_taken hTakes]
  rcases hStatus with hStatus | hStatus
  · refine ⟨ul, .refl ul, ?_⟩
    have hSame : allowDup (sampleRtt now ul ack) ack = ul := by
      simp only [allowDup, sampleRtt, hStatus]
    dsimp only
    rw [hSame, if_pos hStatus]
  · have hSame :
        allowDup (sampleRtt now ul ack) ack =
          { ul with
            ackCnt :=
              Function.update ul.ackCnt ack.toNat
                (maxDupSeq ul ack) } := by
      rcases hStatus with hStatus | hStatus <;>
        simp only [allowDup, sampleRtt, hStatus]
    have hOther : ul.status ≠ .fastRetransmit := by
      rcases hStatus with hStatus | hStatus <;>
        rw [hStatus] <;> decide
    have hCount :
        ¬ maxDupAck <
          Function.update ul.ackCnt ack.toNat
            (maxDupSeq ul ack) ack.toNat + 1 := by
      have hNonpos := maxDupSeq_nonpos ul ack
      rw [Function.update_self]
      simp only [maxDupAck]
      omega
    dsimp only
    rw [hSame]
    dsimp only
    rw [if_neg hOther, if_neg hCount]
    exact ⟨_, setAckCnt_sampled ul _, rfl⟩

/-
  In slow start and congestion avoidance the number is counted
  on what sampling leaves, which are the same counts.
-/
theorem ulHandleAck_counting
    {now : Word}
    {ul : Upload}
    {ack : Word}
    (hTakes : ul.Takes ack)
    (hStatus :
      ul.status = .slowStart ∨
        ul.status = .congestionAvoidance) :
    ∃ ul',
      ul.Sampled ul' ∧
        ulHandleAck now ul ack =
          if maxDupAck < ul.ackCnt ack.toNat + 1 then
            ulLoss
              { ul' with
                ackCnt :=
                  Function.update ul.ackCnt ack.toNat 0 }
          else
            newAck
              { ul' with
                ackCnt :=
                  Function.update ul.ackCnt ack.toNat
                    (ul.ackCnt ack.toNat + 1) } ack := by
  have hSame : ul.Sampled (sampleRtt now ul ack) :=
    sampleRtt_sampled now ul ack
  have hAllow :
      allowDup (sampleRtt now ul ack) ack =
        sampleRtt now ul ack := by
    rcases hStatus with hStatus | hStatus <;>
      simp only [allowDup, hSame.status, hStatus]
  have hCnt : (sampleRtt now ul ack).ackCnt = ul.ackCnt := by
    unfold sampleRtt
    split <;> rfl
  have hOther :
      (sampleRtt now ul ack).status ≠ .fastRetransmit := by
    rw [hSame.status]
    rcases hStatus with hStatus | hStatus <;>
      rw [hStatus] <;> decide
  refine ⟨sampleRtt now ul ack, hSame, ?_⟩
  rw [ulHandleAck_taken hTakes]
  dsimp only
  rw [hAllow, if_neg hOther, hCnt]

end BtPeer
