import BtPeer.Transfer.Rounds
import BtPeer.Transfer.Sequence

/-
  Duplicate acknowledgements: how often the same number has to
  arrive before `ul_handle_ack` takes it for a loss.

  Key definitions include:
    * `Upload.CountsFrom`
    * `Upload.HeldAt`
    * `UlEvent.Acks`

  Key theorems include:
    * `UlRun.Reached.countsFrom`
    * `dupAck_counted`
    * `dupAck_allowed`
    * `dupAcks_loss_iff`
-/

------------------------------------------------------------
-- Where The Counters Start
------------------------------------------------------------

namespace BtPeer

/- The allowance of the recovery states at its largest. -/
def Upload.CountsFrom (ul : Upload) : Prop :=
  ∀ i, -511 ≤ ul.ackCnt i

theorem maxDupSeq_low
    {ul : Upload}
    {ack : Word}
    (hSteady : ul.Steady)
    (hTakes : ul.Takes ack) :
    -511 ≤ maxDupSeq ul ack := by
  have hMax := hSteady.max
  have hHigh : ack.toNat ≤ ul.maxPktSent.toNat := hTakes.high
  have hLow : ul.lastPktAcked.toNat ≤ ack.toNat := hTakes.low
  simp only [lastSeq_eq] at hMax
  have hAck : ack.toInt = ack.toNat :=
    BitVec.toInt_eq_toNat_of_lt (by omega)
  have hAcked : ul.lastPktAcked.toInt = ul.lastPktAcked.toNat :=
    BitVec.toInt_eq_toNat_of_lt (by omega)
  unfold maxDupSeq
  rw [hAck, hAcked]
  omega

/- The counters before the number is counted. -/
theorem allowDup_ackCnt
    (now : Word)
    (ul : Upload)
    (ack : Word) :
    (allowDup (sampleRtt now ul ack) ack).ackCnt =
      if ul.status = .fastRetransmitSs ∨
          ul.status = .fastRetransmitCa then
        Function.update ul.ackCnt ack.toNat (maxDupSeq ul ack)
      else ul.ackCnt := by
  cases hStatus : ul.status <;>
    simp [sampleRtt, allowDup, hStatus]

theorem update_countsFrom
    {counts : Nat → Int}
    (hCounts : ∀ i, -511 ≤ counts i)
    (k : Nat)
    {n : Int}
    (hn : -511 ≤ n) :
    ∀ i, -511 ≤ Function.update counts k n i := by
  intro i
  by_cases hi : i = k
  · subst hi
    rw [Function.update_self]
    exact hn
  · rw [Function.update_of_ne hi]
    exact hCounts i

theorem ulHandleAck_countsFrom
    (now : Word)
    {ul : Upload}
    {ack : Word}
    (hSteady : ul.Steady)
    (hCounts : ul.CountsFrom) :
    (ulHandleAck now ul ack).CountsFrom := by
  by_cases hTakes : ul.Takes ack
  · have hAllowed :
        (allowDup (sampleRtt now ul ack) ack).CountsFrom := by
      unfold Upload.CountsFrom
      rw [allowDup_ackCnt]
      split
      · exact update_countsFrom hCounts _
          (maxDupSeq_low hSteady hTakes)
      · exact hCounts
    rw [ulHandleAck_taken hTakes]
    dsimp only
    split
    · unfold Upload.CountsFrom
      rw [newAck_ackCnt]
      exact hAllowed
    · split
      · exact update_countsFrom hAllowed _ (by decide)
      · have hOld := hAllowed ack.toNat
        unfold Upload.CountsFrom
        rw [newAck_ackCnt]
        exact update_countsFrom hAllowed _ (by omega)
  · rcases ulHandleAck_ignored hTakes with hOut | hOut <;>
      rw [hOut] <;> exact hCounts

theorem UlEvent.apply_countsFrom
    (e : UlEvent)
    {ul : Upload}
    (hSteady : ul.Steady)
    (hCounts : ul.CountsFrom) :
    (e.apply ul).1.CountsFrom := by
  have hReady : (e.prepare ul).1.CountsFrom := by
    cases e with
    | ack now ts num =>
        exact ulHandleAck_countsFrom now hSteady hCounts
    | check now ts =>
        rcases growCa_eq now ul with ⟨caTs, hEq⟩
        simp only [prepare]
        split
        · exact hCounts
        · split <;>
          · rw [hEq]
            exact hCounts
  rw [e.apply_eq]
  split
  · have hSends :=
      (ulSend_sends e.ts (e.prepare_steady hSteady).sent).1
    unfold Upload.CountsFrom
    rw [hSends.ackCnt]
    exact hReady
  · exact hReady

theorem launch_countsFrom
    (ts : Word → Word)
    (pIndex hasIndex : Nat)
    (mapped : Option (Nat → Byte)) :
    (UlRun.launch ts pIndex hasIndex
      mapped).ul.CountsFrom := by
  have hInit :
      (ulInit pIndex hasIndex mapped).1.CountsFrom := by
    intro i
    change (-511 : Int) ≤ 0
    decide
  refine launch_cases (fun r => r.ul.CountsFrom) hInit ?_
  have hSends :=
    (ulSend_sends ts
      (ulInit_steady pIndex hasIndex mapped).sent).1
  unfold Upload.CountsFrom
  rw [hSends.ackCnt]
  exact hInit

theorem UlRun.Reached.countsFrom
    {r : UlRun}
    (hReached : r.Reached) :
    r.ul.CountsFrom :=
  (hReached.invariant
    (fun r => r.ul.Steady ∧ r.ul.CountsFrom)
    (fun ts pIndex hasIndex mapped =>
      ⟨launch_steady ts pIndex hasIndex mapped,
        launch_countsFrom ts pIndex hasIndex mapped⟩)
    (fun _ e hInv =>
      ⟨e.apply_steady hInv.1,
        e.apply_countsFrom hInv.1 hInv.2⟩)).2

end BtPeer

------------------------------------------------------------
-- One Duplicate
------------------------------------------------------------

namespace BtPeer

/- The upload has everything up to `a` acknowledged. -/
structure Upload.HeldAt
    (a : Word)
    (ul : Upload) : Prop where
  opened : ul.finished = false
  acked : ul.lastPktAcked = a
  pos : a ≠ 0
  max : a ≤ ul.maxPktSent

theorem Upload.HeldAt.takes
    {a : Word}
    {ul : Upload}
    (hHeld : ul.HeldAt a) :
    ul.Takes a where
  opened := hHeld.opened
  pos := hHeld.pos
  low := hHeld.acked ▸ BitVec.le_refl _
  high := hHeld.max

/- The event is an acknowledgement of `a`. -/
def UlEvent.Acks
    (a : Word) : UlEvent → Prop
| .ack _ _ num => num = a
| .check _ _ => False

theorem newAck_held
    {a : Word}
    {ul : Upload}
    (hAcked : ul.lastPktAcked = a) :
    newAck ul a = ul := by
  unfold newAck
  rw [hAcked]
  exact if_pos (BitVec.le_refl a)

theorem Upload.HeldAt.of_sampled
    {a : Word}
    {ul ul' : Upload}
    (hHeld : ul.HeldAt a)
    (hSame : ul.Sampled ul') :
    ul'.HeldAt a where
  opened := hSame.finished.trans hHeld.opened
  acked := hSame.lastPktAcked.trans hHeld.acked
  pos := hHeld.pos
  max := hSame.maxPktSent ▸ hHeld.max

/- Sending leaves what the duplicates are counted by. -/
theorem ulSend_heldAt
    (ts : Word → Word)
    {a : Word}
    {ul : Upload}
    (hSteady : ul.Steady)
    (hHeld : ul.HeldAt a) :
    (ulSend ts ul).1.HeldAt a ∧
      (ulSend ts ul).1.status = ul.status ∧
      (ulSend ts ul).1.ackCnt = ul.ackCnt := by
  have hSends := (ulSend_sends ts hSteady.sent).1
  refine ⟨⟨?_, ?_, hHeld.pos, ?_⟩, hSends.same.status,
    hSends.ackCnt⟩
  · exact hSends.same.finished.trans hHeld.opened
  · exact hSends.same.lastPktAcked.trans hHeld.acked
  · exact Nat.le_trans hHeld.max
      (ulSend_max ts hSteady.sent).1

/- In slow start and congestion avoidance it is counted. -/
theorem dupAck_counted
    {a : Word}
    {ul : Upload}
    {e : UlEvent}
    (hAcks : e.Acks a)
    (hSteady : ul.Steady)
    (hHeld : ul.HeldAt a)
    (hStatus :
      ul.status = .slowStart ∨
        ul.status = .congestionAvoidance) :
    if maxDupAck < ul.ackCnt a.toNat + 1 then
      (e.apply ul).1.status = .fastRetransmit
    else
      (e.apply ul).1.HeldAt a ∧
        (e.apply ul).1.status = ul.status ∧
        (e.apply ul).1.ackCnt a.toNat =
          ul.ackCnt a.toNat + 1 := by
  cases e with
  | check now ts => cases hAcks
  | ack now ts num =>
      have hNum : num = a := hAcks
      subst hNum
      rcases @ulHandleAck_counting now ul num hHeld.takes
          hStatus with ⟨ul', hSame, hTaken⟩
      rw [UlEvent.apply_eq]
      simp only [UlEvent.prepare, if_true, UlEvent.ts]
      by_cases hLost : maxDupAck < ul.ackCnt num.toNat + 1
      · rw [if_pos hLost] at hTaken ⊢
        rw [hTaken]
        exact (ulSend_same ts _).status
      · rw [if_neg hLost] at hTaken ⊢
        have hCounted :
            ul.Sampled
              { ul' with
                ackCnt :=
                  Function.update ul.ackCnt num.toNat
                    (ul.ackCnt num.toNat + 1) } :=
          hSame.trans (setAckCnt_sampled _ _)
        rw [newAck_held (hCounted.lastPktAcked.trans
          hHeld.acked)] at hTaken
        rw [hTaken]
        rcases ulSend_heldAt ts
            (hSteady.of_sampled hCounted)
            (hHeld.of_sampled hCounted) with
          ⟨hKept, hSameStatus, hSameCnt⟩
        refine ⟨hKept, hSameStatus.trans hSame.status, ?_⟩
        rw [hSameCnt]
        exact Function.update_self _ _ _

/- After the first retransmission it never is a loss. -/
theorem dupAck_allowed
    {a : Word}
    {ul : Upload}
    {e : UlEvent}
    (hAcks : e.Acks a)
    (hSteady : ul.Steady)
    (hHeld : ul.HeldAt a)
    (hStatus :
      ul.status = .fastRetransmitSs ∨
        ul.status = .fastRetransmitCa) :
    (e.apply ul).1.HeldAt a ∧
      (e.apply ul).1.status = ul.status := by
  cases e with
  | check now ts => cases hAcks
  | ack now ts num =>
      have hNum : num = a := hAcks
      subst hNum
      rcases @ulHandleAck_recovering now ul num hHeld.takes
          (Or.inr hStatus) with ⟨ul', hSame, hOut⟩
      have hHeld' := hHeld.of_sampled hSame
      rw [newAck_held hHeld'.acked] at hOut
      rw [UlEvent.apply_eq]
      simp only [UlEvent.prepare, if_true, UlEvent.ts, hOut]
      rcases ulSend_heldAt ts (hSteady.of_sampled hSame)
          hHeld' with ⟨hKept, hSameStatus, _⟩
      exact ⟨hKept, hSameStatus.trans hSame.status⟩

end BtPeer

------------------------------------------------------------
-- Many Duplicates
------------------------------------------------------------

namespace BtPeer

open EventMachine

/- The count of the duplicates reaches the limit. -/
theorem dupAcks_counted
    {a : Word}
    {es : List UlEvent}
    (hAcks : ∀ e ∈ es, e.Acks a)
    {r : UlRun}
    (hSteady : r.ul.Steady)
    (hHeld : r.ul.HeldAt a)
    (hStatus :
      r.ul.status = .slowStart ∨
        r.ul.status = .congestionAvoidance)
    (hSome : es ≠ [])
    (hMany :
      maxDupAck < r.ul.ackCnt a.toNat + es.length) :
    ∃ fs, fs <+: es ∧
      (run UlRun.step r fs).ul.status = .fastRetransmit := by
  induction es generalizing r with
  | nil => exact absurd rfl hSome
  | cons e es ih =>
      rcases List.forall_mem_cons.mp hAcks with
        ⟨hFirst, hRest⟩
      have hCounted :=
        dupAck_counted hFirst hSteady hHeld hStatus
      by_cases hLost :
          maxDupAck < r.ul.ackCnt a.toNat + 1
      · rw [if_pos hLost] at hCounted
        exact ⟨[e], List.prefix_append [e] es, hCounted⟩
      · rw [if_neg hLost] at hCounted
        rcases hCounted with ⟨hKept, hSame, hCnt⟩
        rw [List.length_cons] at hMany
        have hTail : es ≠ [] := by
          rintro rfl
          exact hLost hMany
        have hNext :
            maxDupAck <
              (r.step e).ul.ackCnt a.toNat + es.length := by
          have hCntStep :
              (r.step e).ul.ackCnt a.toNat =
                r.ul.ackCnt a.toNat + 1 := hCnt
          rw [hCntStep]
          omega
        have hStatusStep :
            (r.step e).ul.status = .slowStart ∨
              (r.step e).ul.status =
                .congestionAvoidance := by
          have hSameStep :
              (r.step e).ul.status = r.ul.status := hSame
          rw [hSameStep]
          exact hStatus
        rcases ih hRest (e.apply_steady hSteady) hKept
            hStatusStep hTail hNext with
          ⟨fs, hPrefix, hReached⟩
        exact ⟨e :: fs, (List.prefix_cons_inj e).mpr hPrefix,
          hReached⟩

/- The recovery states stay as they are. -/
theorem dupAcks_allowed
    {a : Word}
    {fs : List UlEvent}
    (hAcks : ∀ e ∈ fs, e.Acks a)
    {r : UlRun}
    (hSteady : r.ul.Steady)
    (hHeld : r.ul.HeldAt a)
    (hStatus :
      r.ul.status = .fastRetransmitSs ∨
        r.ul.status = .fastRetransmitCa) :
    (run UlRun.step r fs).ul.status = r.ul.status := by
  have hInv :=
    @run_invariant_along _ _ UlRun.step
      (fun r' : UlRun =>
        r'.ul.Steady ∧ r'.ul.HeldAt a ∧
          r'.ul.status = r.ul.status)
      (fun _ e => e.Acks a)
      (fun r' e hInv hAck => by
        rcases hInv with ⟨hSteady', hHeld', hSame⟩
        rcases dupAck_allowed hAck hSteady' hHeld'
            (hSame ▸ hStatus) with ⟨hKept, hSame'⟩
        exact ⟨e.apply_steady hSteady', hKept,
          hSame'.trans hSame⟩)
      r ⟨hSteady, hHeld, rfl⟩ fs (along_of_forall r hAcks)
  exact hInv.2.2

/-
  An unfinished upload that is not waiting for its first
  retransmission gets `MAX_DUP_ACK + 1 + 512` duplicates of
  its last acknowledgement. They cause a loss exactly when it
  is in slow start or in congestion avoidance.
-/
theorem dupAcks_loss_iff
    {r : UlRun}
    (hReached : r.Reached)
    (hOpen : r.ul.finished = false)
    (hStatus : r.ul.status ≠ .fastRetransmit)
    (hPos : 0 < r.ul.lastPktAcked.toNat)
    {es : List UlEvent}
    (hAcks : ∀ e ∈ es, e.Acks r.ul.lastPktAcked)
    (hLength : es.length = maxDupAck.toNat + 1 + lastSeq) :
    (∃ fs, fs <+: es ∧
      (run UlRun.step r fs).ul.status = .fastRetransmit) ↔
      r.ul.status = .slowStart ∨
        r.ul.status = .congestionAvoidance := by
  have hSteady := hReached.steady
  have hCounts := hReached.countsFrom r.ul.lastPktAcked.toNat
  have hHeld : r.ul.HeldAt r.ul.lastPktAcked := by
    refine ⟨hOpen, rfl, ?_, hSteady.counted⟩
    intro hZero
    rw [hZero] at hPos
    exact absurd hPos (by decide)
  simp only [maxDupAck, lastSeq_eq] at hLength
  constructor
  · rintro ⟨fs, hPrefix, hLost⟩
    by_contra hOther
    have hAllowed :
        r.ul.status = .fastRetransmitSs ∨
          r.ul.status = .fastRetransmitCa := by
      revert hStatus hOther
      cases r.ul.status <;> simp
    have hSame :=
      dupAcks_allowed
        (fun e hMem => hAcks e (hPrefix.subset hMem))
        hSteady hHeld hAllowed
    exact hStatus (hSame.symm.trans hLost)
  · intro hCounting
    refine dupAcks_counted hAcks hSteady hHeld hCounting ?_ ?_
    · rintro rfl
      cases hLength
    · rw [hLength]
      simp only [maxDupAck]
      omega

/- The duplicates of the first acknowledgement in slow start. -/
theorem dupAcks_loss_slowStart :
    let r :=
      run UlRun.step
        (UlRun.launch (fun _ => 1) 0 0 (some (fun _ => 7)))
        [.ack 2 (fun _ => 2) 1]
    let es : List UlEvent :=
      List.replicate 516 (.ack 3 (fun _ => 3) 1)
    ∃ fs, fs <+: es ∧
      (run UlRun.step r fs).ul.status = .fastRetransmit := by
  intro r es
  have hReached : r.Reached := ⟨_, _, _, _, _, rfl⟩
  have hAcked : r.ul.lastPktAcked = 1 := by decide +kernel
  refine (dupAcks_loss_iff hReached (by decide +kernel)
    (by decide +kernel) (by decide +kernel) ?_ ?_).mpr
      (Or.inl (by decide +kernel))
  · intro e hMem
    rw [List.eq_of_mem_replicate hMem]
    exact hAcked.symm
  · rw [List.length_replicate]
    rfl

/-
  Segments 1, 2 and 3 are sent, 1 is acknowledged, 2 times out
  and is acknowledged after it was sent again: the duplicates
  of this acknowledgement are never taken for a loss.
-/
theorem dupAcks_ignored :
    ¬ ∀ r : UlRun,
        r.Reached →
        r.ul.finished = false →
        r.ul.status ≠ .fastRetransmit →
        0 < r.ul.lastPktAcked.toNat →
          ∀ es : List UlEvent,
            (∀ e ∈ es, e.Acks r.ul.lastPktAcked) →
            es.length = maxDupAck.toNat + 1 + lastSeq →
              ∃ fs, fs <+: es ∧
                (run UlRun.step r fs).ul.status =
                  .fastRetransmit := by
  intro hAll
  let r :=
    run UlRun.step
      (UlRun.launch (fun _ => 1) 0 0 (some (fun _ => 7)))
      [.ack 2 (fun _ => 2) 1, .check 9000 (fun _ => 9000),
        .ack 9001 (fun _ => 9001) 2]
  have hReached : r.Reached := ⟨_, _, _, _, _, rfl⟩
  have hAcked : r.ul.lastPktAcked = 2 := by decide +kernel
  have hStatus : r.ul.status = .fastRetransmitSs := by
    decide +kernel
  have hOpen : r.ul.finished = false := by decide +kernel
  have hAcks :
      ∀ e ∈ List.replicate 516
          (UlEvent.ack 9002 (fun _ => 9002) 2),
        e.Acks r.ul.lastPktAcked := by
    intro e hMem
    rw [List.eq_of_mem_replicate hMem, hAcked]
    rfl
  rcases hAll r hReached hOpen (by rw [hStatus]; decide)
      (by rw [hAcked]; decide) _ hAcks
      (by rw [List.length_replicate]; rfl) with
    ⟨fs, hPrefix, hLost⟩
  have hSame :=
    dupAcks_allowed
      (fun e hMem => hAcks e (hPrefix.subset hMem))
      hReached.steady
      ⟨hOpen, rfl, by rw [hAcked]; decide,
        hReached.steady.counted⟩
      (Or.inl hStatus)
  rw [hStatus] at hSame
  rw [hSame] at hLost
  cases hLost

end BtPeer
