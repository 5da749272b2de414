import BtPeer.Basic
import BtPeer.Library.Ring

/-
  The receive window of recv_win.c: a bitmap of 1024 slots
  in 32-bit words with a rotating front.

  Away from the end of the 32-bit sequence space, the
  operations are those of a ring of 1024 slots.

  Key definitions include:
    * `RecvWin`
    * `recvwinMark`
    * `recvwinSlideack`
    * `RecvWin.toRing`

  Key theorems include:
    * `seqExistIn_eq_has`
    * `toRing_mark`
    * `toRing_slideack`
-/

------------------------------------------------------------
-- Bitmaps
------------------------------------------------------------

namespace BtPeer

/- `RECV_WINDOW_SIZE` and `INT_SIZE` of recv_win.h. -/
def recvWindowSize : Nat := 1024

def intSize : Nat := 32

@[simp] theorem recvWindowSize_eq :
    recvWindowSize = 1024 := rfl

@[simp] theorem intSize_eq : intSize = 32 := rfl

/- `BM_SET` -/
def bmSet
    (bm : Nat → Word)
    (i : Nat) : Nat → Word :=
  Function.update bm (i / intSize)
    (bm (i / intSize) ||| (1#32 <<< (i % intSize)))

/- `BM_UNSET`, which toggles the bit. -/
def bmUnset
    (bm : Nat → Word)
    (i : Nat) : Nat → Word :=
  Function.update bm (i / intSize)
    (bm (i / intSize) ^^^ (1#32 <<< (i % intSize)))

/- `BM_ISSET` -/
def bmIsset
    (bm : Nat → Word)
    (i : Nat) : Bool :=
  bm (i / intSize) &&& (1#32 <<< (i % intSize)) != 0#32

theorem bmIsset_eq_getLsbD
    (bm : Nat → Word)
    (i : Nat) :
    bmIsset bm i = (bm (i / 32)).getLsbD (i % 32) := by
  have hBit : i % 32 < 32 := Nat.mod_lt i (by decide)
  have hMask : BitVec.twoPow 32 (i % 32) ≠ 0#32 := by
    intro hZero
    have hLsb :=
      congrArg (fun w => w.getLsbD (i % 32)) hZero
    simp [hBit] at hLsb
  simp only [bmIsset, intSize_eq, ← BitVec.twoPow_eq,
    BitVec.and_twoPow]
  cases hGet : (bm (i / 32)).getLsbD (i % 32) <;>
    simp [hMask]

/- The other bit of the same word is at another position. -/
theorem index_eq_of_word_bit
    {i j : Nat}
    (hWord : j / 32 = i / 32)
    (hBit : j % 32 = i % 32) :
    j = i := by
  omega

theorem bmIsset_bmSet
    (bm : Nat → Word)
    (i j : Nat) :
    bmIsset (bmSet bm i) j =
      (decide (j = i) || bmIsset bm j) := by
  have hBit : j % 32 < 32 := Nat.mod_lt j (by decide)
  rw [bmIsset_eq_getLsbD, bmIsset_eq_getLsbD]
  by_cases hWord : j / 32 = i / 32
  · simp only [bmSet, intSize_eq, ← BitVec.twoPow_eq, hWord,
      Function.update_self, BitVec.getLsbD_or,
      BitVec.getLsbD_twoPow]
    by_cases hEq : j = i
    · subst hEq
      simp [hBit]
    · have hNe : ¬ i % 32 = j % 32 :=
        fun h => hEq (index_eq_of_word_bit hWord h.symm)
      simp [hEq, hNe]
  · have hNe : j ≠ i := fun h => hWord (by rw [h])
    simp [bmSet, Function.update_of_ne hWord, hNe]

theorem bmIsset_bmUnset
    (bm : Nat → Word)
    (i j : Nat) :
    bmIsset (bmUnset bm i) j =
      if j = i then ! bmIsset bm i else bmIsset bm j := by
  have hBit : j % 32 < 32 := Nat.mod_lt j (by decide)
  rw [bmIsset_eq_getLsbD, bmIsset_eq_getLsbD,
    bmIsset_eq_getLsbD]
  by_cases hWord : j / 32 = i / 32
  · simp only [bmUnset, intSize_eq, ← BitVec.twoPow_eq, hWord,
      Function.update_self, BitVec.getLsbD_xor,
      BitVec.getLsbD_twoPow]
    by_cases hEq : j = i
    · subst hEq
      simp [hBit]
    · have hNe : ¬ i % 32 = j % 32 :=
        fun h => hEq (index_eq_of_word_bit hWord h.symm)
      simp [hEq, hNe]
  · have hNe : j ≠ i := fun h => hWord (by rw [h])
    simp [bmUnset, Function.update_of_ne hWord, hNe]

end BtPeer

------------------------------------------------------------
-- The Receive Window
------------------------------------------------------------

namespace BtPeer

structure RecvWin where
  bm : Nat → Word
  front : Word
  nextSeq : Word

/- `init_recvwin` -/
def initRecvwin : RecvWin where
  bm := fun _ => 0
  front := 0
  nextSeq := 1

/- `SEQ_IN_WIN`, computed in `uint32_t`. -/
def seqInWin
    (seq : Word)
    (rwin : RecvWin) : Nat :=
  ((seq - rwin.nextSeq + rwin.front) %
    BitVec.ofNat 32 recvWindowSize).toNat

/- `seq_fit_in` -/
def seqFitIn
    (rwin : RecvWin)
    (seq : Word) : Bool :=
  rwin.nextSeq ≤ seq &&
    seq < rwin.nextSeq + BitVec.ofNat 32 recvWindowSize

/- `seq_exist_in` -/
def seqExistIn
    (rwin : RecvWin)
    (seq : Word) : Bool :=
  bmIsset rwin.bm (seqInWin seq rwin)

/- `recvwin_mark` -/
def recvwinMark
    (rwin : RecvWin)
    (seq : Word) : RecvWin :=
  { rwin with bm := bmSet rwin.bm (seqInWin seq rwin) }

/-
  The loop of `recvwin_slideack` with `k` steps left to
  `RECV_WINDOW_SIZE`; `rwin` keeps its front and next
  sequence number while the bitmap is cleared.
-/
def slideackLoop
    (rwin : RecvWin) :
    Nat → (Nat → Word) → Word → Word →
      (Nat → Word) × Word × Word
| 0, bm, seq, size => (bm, seq, size)
| k + 1, bm, seq, size =>
    if bmIsset bm (seqInWin seq rwin) then
      slideackLoop rwin k
        (bmUnset bm (seqInWin seq rwin)) (seq + 1) (size + 1)
    else (bm, seq, size)

/- `recvwin_slideack` -/
def recvwinSlideack (rwin : RecvWin) : RecvWin :=
  match
    slideackLoop rwin recvWindowSize rwin.bm rwin.nextSeq 0
  with
  | (bm, seq, size) =>
      { bm := bm
        front := BitVec.ofNat 32 (seqInWin seq rwin)
        nextSeq := rwin.nextSeq + size }

end BtPeer

------------------------------------------------------------
-- Refinement Of The SlotRing
------------------------------------------------------------

namespace BtPeer

open RingWindow

/- The ring of a bitmap read with the offsets of `rwin`. -/
def ringOf
    (rwin : RecvWin)
    (bm : Nat → Word)
    (seq : Word) : SlotRing 1024 where
  bit := fun k => bmIsset bm (seqInWin (BitVec.ofNat 32 k) rwin)
  next := seq.toNat

/- The ring that a receive window stands for. -/
def RecvWin.toRing (rwin : RecvWin) : SlotRing 1024 :=
  ringOf rwin rwin.bm rwin.nextSeq

theorem seqInWin_eq
    (seq : Word)
    (rwin : RecvWin) :
    seqInWin seq rwin =
      (seq.toNat + (4294967296 - rwin.nextSeq.toNat) +
        rwin.front.toNat) % 1024 := by
  have hSeq := seq.isLt
  have hNext := rwin.nextSeq.isLt
  have hFront := rwin.front.isLt
  simp only [seqInWin, recvWindowSize_eq, BitVec.toNat_umod,
    BitVec.toNat_add, BitVec.toNat_sub, BitVec.toNat_ofNat,
    Nat.reducePow, Nat.reduceMod]
  omega

/- A bitmap slot depends on the ring slot only. -/
theorem seqInWin_slot
    (seq : Word)
    (rwin : RecvWin) :
    seqInWin
        (BitVec.ofNat 32
          (slot seq.toNat : Fin 1024))
        rwin =
      seqInWin seq rwin := by
  have hSeq := seq.isLt
  simp only [seqInWin_eq, BitVec.toNat_ofNat, slot,
    Fin.ofNat, Nat.reducePow]
  omega

/- Different ring slots use different bitmap slots. -/
theorem seqInWin_inj
    (seq : Word)
    (rwin : RecvWin)
    (k : Fin 1024) :
    seqInWin (BitVec.ofNat 32 k) rwin = seqInWin seq rwin ↔
      k = slot seq.toNat := by
  have hSeq := seq.isLt
  have hk := k.isLt
  simp only [seqInWin_eq, BitVec.toNat_ofNat, slot,
    Fin.ofNat, Fin.ext_iff, Nat.reducePow]
  omega

theorem ringOf_has
    (rwin : RecvWin)
    (bm : Nat → Word)
    (next seq : Word) :
    (ringOf rwin bm next).has seq.toNat =
      bmIsset bm (seqInWin seq rwin) := by
  simp only [SlotRing.has, ringOf, seqInWin_slot]

theorem seqExistIn_eq_has
    (rwin : RecvWin)
    (seq : Word) :
    seqExistIn rwin seq = rwin.toRing.has seq.toNat :=
  (ringOf_has rwin rwin.bm rwin.nextSeq seq).symm

theorem toRing_mark
    (rwin : RecvWin)
    (seq : Word) :
    (recvwinMark rwin seq).toRing =
      rwin.toRing.mark seq.toNat := by
  have hBits :
      (recvwinMark rwin seq).toRing.bit =
        Function.update rwin.toRing.bit
          (slot seq.toNat) true := by
    funext k
    change
      bmIsset (bmSet rwin.bm (seqInWin seq rwin))
          (seqInWin (BitVec.ofNat 32 k) rwin) = _
    rw [bmIsset_bmSet]
    by_cases hk : k = slot seq.toNat
    · subst hk
      simp [seqInWin_slot]
    · have hNe := mt (seqInWin_inj seq rwin k).mp hk
      rw [Function.update_of_ne hk]
      simp [hNe, RecvWin.toRing, ringOf]
  exact congrArg
    (fun bits => SlotRing.mk bits rwin.nextSeq.toNat) hBits

/- One step of the loop advances the ring. -/
theorem ringOf_unset
    (rwin : RecvWin)
    (bm : Nat → Word)
    (seq : Word)
    (hSet : bmIsset bm (seqInWin seq rwin) = true)
    (hRoom : seq.toNat + 1 < 4294967296) :
    ringOf rwin (bmUnset bm (seqInWin seq rwin)) (seq + 1) =
      (ringOf rwin bm seq).advance := by
  have hNext : (seq + 1).toNat = seq.toNat + 1 := by
    rw [BitVec.toNat_add]
    exact Nat.mod_eq_of_lt hRoom
  have hBits :
      (ringOf rwin (bmUnset bm (seqInWin seq rwin))
          (seq + 1)).bit =
        Function.update (ringOf rwin bm seq).bit
          (slot seq.toNat) false := by
    funext k
    simp only [ringOf]
    rw [bmIsset_bmUnset]
    by_cases hk : k = slot seq.toNat
    · subst hk
      simp [seqInWin_slot, hSet]
    · have hNe := mt (seqInWin_inj seq rwin k).mp hk
      rw [Function.update_of_ne hk]
      simp [hNe]
  calc
    ringOf rwin (bmUnset bm (seqInWin seq rwin)) (seq + 1) =
        SlotRing.mk
          (Function.update (ringOf rwin bm seq).bit
            (slot seq.toNat) false) (seq.toNat + 1) := by
      rw [← hBits, ← hNext]
      rfl
    _ = (ringOf rwin bm seq).advance := rfl

/- The loop slides the ring, counting its steps in `size`. -/
theorem slideackLoop_spec
    (rwin : RecvWin)
    (k : Nat)
    (bm : Nat → Word)
    (seq size : Word)
    (hRoom : seq.toNat + k < 4294967296) :
    let out := slideackLoop rwin k bm seq size
    ringOf rwin out.1 out.2.1 =
        SlotRing.slideN k (ringOf rwin bm seq) ∧
      out.2.1 - out.2.2 = seq - size := by
  induction k generalizing bm seq size with
  | zero => simp [slideackLoop, SlotRing.slideN]
  | succ k ih =>
      have hHas := ringOf_has rwin bm seq seq
      by_cases hSet : bmIsset bm (seqInWin seq rwin) = true
      · have hNext : (seq + 1).toNat = seq.toNat + 1 := by
          rw [BitVec.toNat_add]
          exact Nat.mod_eq_of_lt (by simp; omega)
        rcases ih (bmUnset bm (seqInWin seq rwin)) (seq + 1)
            (size + 1) (by omega) with
          ⟨hRing, hSize⟩
        simp only [slideackLoop, hSet, if_true]
        refine ⟨?_, ?_⟩
        · rw [hRing, ringOf_unset rwin bm seq hSet (by omega)]
          have hFirst :
              (ringOf rwin bm seq).has
                  (ringOf rwin bm seq).next = true := by
            exact hHas.trans hSet
          simp [SlotRing.slideN, hFirst]
        · rw [hSize]
          bv_omega
      · have hFirst :
            ¬ (ringOf rwin bm seq).has
                (ringOf rwin bm seq).next = true := by
          intro h
          exact hSet (hHas.symm.trans h)
        simp [slideackLoop, hSet, SlotRing.slideN, hFirst]

/- The new front reads the bitmap as the old one did. -/
theorem seqInWin_front
    (rwin : RecvWin)
    (bm : Nat → Word)
    (seq x : Word) :
    seqInWin x
        { bm := bm
          front := BitVec.ofNat 32 (seqInWin seq rwin)
          nextSeq := seq } =
      seqInWin x rwin := by
  have hSeq := seq.isLt
  have hNext := rwin.nextSeq.isLt
  simp only [seqInWin_eq, BitVec.toNat_ofNat]
  omega

theorem toRing_slideack
    (rwin : RecvWin)
    (hRoom :
      rwin.nextSeq.toNat + 1024 < 4294967296) :
    (recvwinSlideack rwin).toRing = rwin.toRing.slide := by
  rcases slideackLoop_spec rwin recvWindowSize rwin.bm
      rwin.nextSeq 0 hRoom with
    ⟨hRing, hSize⟩
  generalize hOut :
    slideackLoop rwin recvWindowSize rwin.bm rwin.nextSeq 0 =
      out at hRing hSize
  rcases out with ⟨bm, seq, size⟩
  have hSeq : rwin.nextSeq + size = seq := by
    simp only at hSize
    bv_omega
  calc
    (recvwinSlideack rwin).toRing =
        ringOf rwin bm seq := by
      simp only [recvwinSlideack, hOut, RecvWin.toRing,
        ringOf, hSeq, seqInWin_front]
    _ = rwin.toRing.slide := hRing

theorem seqFitIn_iff
    (rwin : RecvWin)
    (seq : Word)
    (hRoom :
      rwin.nextSeq.toNat + 1024 < 4294967296) :
    seqFitIn rwin seq = true ↔
      rwin.toRing.next ≤ seq.toNat ∧
        seq.toNat < rwin.toRing.next + 1024 := by
  simp only [seqFitIn, Bool.and_eq_true, decide_eq_true_eq,
    BitVec.le_def, BitVec.lt_def, BitVec.toNat_add,
    BitVec.toNat_ofNat, RecvWin.toRing, ringOf,
    recvWindowSize_eq]
  omega

/- The fresh window expects 1 and holds nothing. -/
theorem toRing_init_has
    (s : Nat) :
    initRecvwin.toRing.has s = false := by
  simp [SlotRing.has, RecvWin.toRing, ringOf, initRecvwin,
    bmIsset]

@[simp] theorem toRing_next
    (rwin : RecvWin) :
    rwin.toRing.next = rwin.nextSeq.toNat := rfl

end BtPeer
