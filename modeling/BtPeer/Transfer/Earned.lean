import BtPeer.Transfer.Receiver

/-
  What an acknowledgement stands for, whatever packets come
  in: every segment up to its number was received. Nothing is
  asked of the lengths and the sequence numbers of the
  packets, so the window may reach the end of the 32-bit
  sequence space; there it takes no more segments.

  Key definitions include:
    * `RecvWin.Earned`
    * `EarnedAcks`

  Key theorems include:
    * `slideack_earned`
    * `dlRecv_earned`
    * `dlCheckTimeout_earned`
-/

------------------------------------------------------------
-- An Earned Window
------------------------------------------------------------

namespace BtPeer

open RingWindow

/-
  What the window is past or has marked meets `P`. Near the
  end of the sequence space its first slot stays free.
-/
structure RecvWin.Earned
    (P : Nat → Prop)
    (rwin : RecvWin) : Prop where
  first : 1 ≤ rwin.nextSeq.toNat
  below : ∀ n, 1 ≤ n → n < rwin.nextSeq.toNat → P n
  marked :
    rwin.nextSeq.toNat + recvWindowSize < 4294967296 →
      rwin.toRing.Sound P
  stuck :
    4294967296 ≤ rwin.nextSeq.toNat + recvWindowSize →
      seqExistIn rwin rwin.nextSeq = false

section

variable {P Q : Nat → Prop}
variable {rwin : RecvWin}

theorem RecvWin.Earned.mono
    (hEarned : rwin.Earned P)
    (hImp : ∀ n, P n → Q n) :
    rwin.Earned Q where
  first := hEarned.first
  below := fun n hFirst hBelow =>
    hImp n (hEarned.below n hFirst hBelow)
  marked := fun hRoom => (hEarned.marked hRoom).mono hImp
  stuck := hEarned.stuck

theorem init_earned
    (P : Nat → Prop) :
    initRecvwin.Earned P where
  first := Nat.le_refl 1
  below := by
    intro n hFirst hBelow
    have hLt : n < 1 := hBelow
    omega
  marked := by
    intro _ s _ _ hHas
    rw [toRing_init_has] at hHas
    cases hHas
  stuck := by
    intro hEnd
    revert hEnd
    decide

/- No sequence number fits in at the end of the space. -/
theorem room_of_seqFitIn
    {seq : Word}
    (hFit : seqFitIn rwin seq = true) :
    rwin.nextSeq.toNat + recvWindowSize < 4294967296 := by
  have hNext := rwin.nextSeq.isLt
  simp only [seqFitIn, Bool.and_eq_true, decide_eq_true_eq,
    BitVec.le_def, BitVec.lt_def, BitVec.toNat_add,
    BitVec.toNat_ofNat, recvWindowSize_eq] at hFit ⊢
  omega

theorem mark_earned
    (hEarned : rwin.Earned P)
    {seq : Word}
    (hFit : seqFitIn rwin seq = true)
    (hNew : P seq.toNat) :
    (recvwinMark rwin seq).Earned P where
  first := hEarned.first
  below := hEarned.below
  marked := by
    intro hRoom
    rcases (seqFitIn_iff rwin seq hRoom).mp hFit with
      ⟨hLow, hHigh⟩
    rw [toRing_mark]
    exact SlotRing.sound_mark (hEarned.marked hRoom) hLow hHigh
      hNew
  stuck := by
    intro hEnd
    have hRoom := room_of_seqFitIn hFit
    exact absurd hEnd (Nat.not_le_of_lt hRoom)

/- A window whose first slot is free does not move. -/
theorem slideack_stuck
    (hFree : seqExistIn rwin rwin.nextSeq = false) :
    (recvwinSlideack rwin).nextSeq = rwin.nextSeq ∧
      seqExistIn (recvwinSlideack rwin)
          (recvwinSlideack rwin).nextSeq =
        false := by
  unfold seqExistIn at hFree
  have hLoop :
      slideackLoop rwin recvWindowSize rwin.bm rwin.nextSeq
          0 =
        (rwin.bm, rwin.nextSeq, 0) := by
    rw [recvWindowSize, slideackLoop, hFree]
    rfl
  have hZero : rwin.nextSeq + 0 = rwin.nextSeq := by
    bv_omega
  have hSlid :
      recvwinSlideack rwin =
        { bm := rwin.bm
          front :=
            BitVec.ofNat 32 (seqInWin rwin.nextSeq rwin)
          nextSeq := rwin.nextSeq } := by
    simp only [recvwinSlideack, hLoop, hZero]
  rw [hSlid]
  refine ⟨rfl, ?_⟩
  unfold seqExistIn
  rw [seqInWin_front]
  exact hFree

theorem slideack_earned
    (hEarned : rwin.Earned P) :
    (recvwinSlideack rwin).Earned P := by
  by_cases hRoom :
      rwin.nextSeq.toNat + recvWindowSize < 4294967296
  · have hSlide := toRing_slideack rwin hRoom
    have hNext :
        (recvwinSlideack rwin).nextSeq.toNat =
          rwin.toRing.slide.next := by
      rw [← toRing_next, hSlide]
    have hSound := hEarned.marked hRoom
    refine ⟨?_, ?_, ?_, ?_⟩
    · rw [hNext]
      exact Nat.le_trans hEarned.first
        (SlotRing.slide_next_le rwin.toRing)
    · intro n hFirst hBelow
      by_cases hOld : n < rwin.nextSeq.toNat
      · exact hEarned.below n hFirst hOld
      · exact SlotRing.passed_slide hSound
          (Nat.le_of_not_lt hOld) (hNext ▸ hBelow)
    · intro _
      rw [hSlide]
      exact SlotRing.sound_slide hSound
    · intro _
      rw [seqExistIn_eq_has, hNext, hSlide]
      exact SlotRing.slide_free rwin.toRing
  · -- the first slot is free and stays so
    have hEnd := Nat.le_of_not_lt hRoom
    rcases slideack_stuck (hEarned.stuck hEnd) with
      ⟨hSame, hFree⟩
    refine ⟨?_, ?_, ?_, fun _ => hFree⟩
    · rw [hSame]
      exact hEarned.first
    · rw [hSame]
      exact hEarned.below
    · intro hNoRoom
      rw [hSame] at hNoRoom
      exact absurd hNoRoom hRoom

end

end BtPeer

------------------------------------------------------------
-- Earned Acknowledgements
------------------------------------------------------------

namespace BtPeer

/- Every segment up to the acknowledged one meets `P`. -/
def EarnedAck
    (P : Nat → Prop)
    (ack : Word) : Prop :=
  ∀ n, 1 ≤ n → n ≤ ack.toNat → P n

/- The calls send earned acknowledgements to peer `p`. -/
def EarnedAcks
    (P : Nat → Prop)
    (p : Nat)
    (sent : List PktParam) : Prop :=
  ∀ pp ∈ sent, ∃ ack, pp = ackParam p ack ∧ EarnedAck P ack

section

variable {P : Nat → Prop}
variable {dl : Download}

theorem earnedAcks_nil
    (p : Nat) :
    EarnedAcks P p [] :=
  List.forall_mem_nil _

/- What `get_ack` returns is earned. -/
theorem getAck_earned
    (hEarned : dl.rwin.Earned P) :
    (getAck dl).1.rwin.Earned P ∧
      EarnedAck P (getAck dl).2 := by
  have hSlid := slideack_earned hEarned
  refine ⟨hSlid, ?_⟩
  intro n hFirst hLe
  have hPos := hSlid.first
  apply hSlid.below n hFirst
  have hPred :
      (getAck dl).2.toNat =
        (recvwinSlideack dl.rwin).nextSeq.toNat - 1 := by
    simp only [getAck, slideAck]
    bv_omega
  omega

theorem storeSegment_earned
    (hEarned : dl.rwin.Earned P)
    {pkt : Packet}
    (hFit : seqFitIn dl.rwin pkt.seq = true)
    (hNew : P pkt.seq.toNat) :
    (storeSegment dl pkt).rwin.Earned P := by
  unfold storeSegment
  split
  · exact hEarned
  · exact mark_earned hEarned hFit hNew

/- A received segment is all that a packet adds. -/
theorem dlRecv_earned
    (now ts : Word)
    (hEarned : dl.rwin.Earned P)
    {pkt : Packet}
    (hNew : P pkt.seq.toNat) :
    (dlRecv now ts dl pkt).1.rwin.Earned P ∧
      EarnedAcks P dl.pIndex (dlRecv now ts dl pkt).2.1 := by
  have hSame := recordLength_same now dl pkt
  unfold dlRecv
  split
  · exact ⟨hEarned, earnedAcks_nil _⟩
  · generalize recordLength now dl pkt = dl₁ at hSame
    have hRecorded : dl₁.rwin.Earned P :=
      hSame.rwin ▸ hEarned
    dsimp only
    split
    · exact ⟨hRecorded, earnedAcks_nil _⟩
    · rename_i hAdmit
      simp only [Bool.or_eq_true, Bool.not_eq_true',
        decide_eq_true_eq, not_or, Bool.not_eq_false]
        at hAdmit
      rcases getAck_earned
          (storeSegment_earned hRecorded hAdmit.1 hNew) with
        ⟨hSlid, hAck⟩
      have hTarget := storeSegment_sameTarget dl₁ pkt
      refine ⟨?_, ?_⟩
      · rw [markFinished_rwin]
        exact hSlid
      · intro pp hMem
        refine ⟨_, ?_, hAck⟩
        rw [List.mem_singleton.mp hMem, ← hSame.pIndex,
          ← hTarget.pIndex]
        rfl

theorem lossAcks_earned
    (k : Nat)
    (hEarned : dl.rwin.Earned P) :
    (lossAcks k dl).1.rwin.Earned P ∧
      EarnedAcks P dl.pIndex (lossAcks k dl).2 := by
  induction k generalizing dl with
  | zero => exact ⟨hEarned, earnedAcks_nil _⟩
  | succ k ih =>
      rcases getAck_earned hEarned with ⟨hSlid, hAck⟩
      rcases ih hSlid with ⟨hRest, hAcks⟩
      refine ⟨hRest, ?_⟩
      intro pp hMem
      rcases List.mem_cons.mp hMem with rfl | hLater
      · exact ⟨_, rfl, hAck⟩
      · exact hAcks pp hLater

/- A timeout acknowledges nothing more. -/
theorem dlCheckTimeout_earned
    (now ts : Word)
    (hEarned : dl.rwin.Earned P) :
    (dlCheckTimeout now ts dl).1.rwin.Earned P ∧
      EarnedAcks P dl.pIndex
        (dlCheckTimeout now ts dl).2.1 := by
  unfold dlCheckTimeout
  split
  · exact ⟨hEarned, earnedAcks_nil _⟩
  · split
    · exact ⟨hEarned, earnedAcks_nil _⟩
    · split
      · exact ⟨hEarned, earnedAcks_nil _⟩
      · exact
          @lossAcks_earned P
            { dl with timeoutCnt := dl.timeoutCnt + 1 }
            lossAckNum hEarned

end

end BtPeer
