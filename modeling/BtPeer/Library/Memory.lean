import Mathlib.Data.List.Basic

/-
  Byte-addressed memory and sparse files, over an arbitrary
  cell type.

  Memory is a total function of the address. A file is a
  partial function: an address past the end holds nothing,
  and writing past the end fills the gap with a hole value.

  Key definitions include:
    * `ByteMemory.memcpy`
    * `ByteMemory.pwrite`
    * `ByteMemory.Stores`

  Key theorems include:
    * `ByteMemory.block_memcpy`
    * `ByteMemory.stores_pwrite`
    * `ByteMemory.stores_pwrite_of_untouched`
    * `ByteMemory.pwrite_untouched`
    * `ByteMemory.slots_disjoint`
-/

------------------------------------------------------------
-- Memory
------------------------------------------------------------

namespace ByteMemory

variable {α : Type*}

/- Copy `n` cells of `src` over `dst` from address `off`. -/
def memcpy
    (dst : Nat → α)
    (off : Nat)
    (src : Nat → α)
    (n : Nat) : Nat → α :=
  fun i =>
    if off ≤ i ∧ i < off + n then src (i - off) else dst i

theorem memcpy_inside
    (dst src : Nat → α)
    {off n i : Nat}
    (hi : i < n) :
    memcpy dst off src n (off + i) = src i := by
  simp [memcpy, hi]

/- A copy to the front. -/
theorem memcpy_front
    (dst src : Nat → α)
    {n i : Nat}
    (hi : i < n) :
    memcpy dst 0 src n i = src i := by
  simp [memcpy, hi]

theorem memcpy_outside
    (dst src : Nat → α)
    {off n i : Nat}
    (hi : i < off ∨ off + n ≤ i) :
    memcpy dst off src n i = dst i := by
  have hNot : ¬ (off ≤ i ∧ i < off + n) := by omega
  simp [memcpy, hNot]

/- The `n` cells of `m` from address `off`, as a list. -/
def block
    (m : Nat → α)
    (off n : Nat) : List α :=
  (List.range n).map (fun i => m (off + i))

theorem block_congr
    {m m' : Nat → α}
    {off off' n : Nat}
    (hCells : ∀ i, i < n → m (off + i) = m' (off' + i)) :
    block m off n = block m' off' n := by
  apply List.map_congr_left
  intro i hi
  exact hCells i (List.mem_range.mp hi)

/- Equal blocks have equal cells. -/
theorem block_cells
    {m m' : Nat → α}
    {off off' n : Nat}
    (hBlocks : block m off n = block m' off' n)
    {i : Nat}
    (hi : i < n) :
    m (off + i) = m' (off' + i) := by
  unfold block at hBlocks
  exact List.map_inj_left.mp hBlocks i (List.mem_range.mpr hi)

@[simp] theorem block_length
    (m : Nat → α)
    (off n : Nat) :
    (block m off n).length = n := by
  simp [block]

/- A block in two parts. -/
theorem block_add
    (m : Nat → α)
    (off a b : Nat) :
    block m off (a + b) =
      block m off a ++ block m (off + a) b := by
  unfold block
  rw [List.range_add, List.map_append, List.map_map]
  congr 1
  apply List.map_congr_left
  intro i _
  exact congrArg m (Nat.add_assoc off a i).symm

theorem block_getD
    (m : Nat → α)
    (off : Nat)
    {n i : Nat}
    (default : α)
    (hi : i < n) :
    (block m off n).getD i default = m (off + i) := by
  unfold block
  rw [List.getD_eq_getElem?_getD, List.getElem?_map,
    List.getElem?_range hi]
  rfl

/- The cells in front of a copy, and the cells copied. -/
theorem block_memcpy
    (dst : Nat → α)
    (off : Nat)
    (src : Nat → α)
    (n : Nat) :
    block (memcpy dst off src n) 0 (off + n) =
      block dst 0 off ++ block src 0 n := by
  rw [block_add]
  congr 1
  · apply block_congr
    intro i hi
    exact memcpy_outside dst src
      (Or.inl (by rwa [Nat.zero_add]))
  · apply block_congr
    intro i hi
    rw [Nat.zero_add, Nat.zero_add]
    exact memcpy_inside dst src hi

end ByteMemory

------------------------------------------------------------
-- Sparse Files
------------------------------------------------------------

namespace ByteMemory

variable {α : Type*}

/- `some` cell below the end of the file, `none` past it. -/
abbrev SparseFile (α : Type*) :=
  Nat → Option α

/-
  Write `n` cells of `src` at position `off`. A write past
  the end turns the gap into cells holding `hole`.
-/
def pwrite
    (hole : α)
    (f : SparseFile α)
    (off : Nat)
    (src : Nat → α)
    (n : Nat) : SparseFile α :=
  fun i =>
    if off ≤ i ∧ i < off + n then some (src (i - off))
    else if i < off ∧ 0 < n then some ((f i).getD hole)
    else f i

/- The file holds the first `n` cells of `src` at `off`. -/
def Stores
    (f : SparseFile α)
    (off : Nat)
    (src : Nat → α)
    (n : Nat) : Prop :=
  ∀ i, i < n → f (off + i) = some (src i)

/- What was written can be read back. -/
theorem stores_pwrite
    (hole : α)
    (f : SparseFile α)
    (off : Nat)
    (src : Nat → α)
    (n : Nat) :
    Stores (pwrite hole f off src n) off src n := by
  intro i hi
  simp [pwrite, hi]

/- The write of `n` cells at `off` touches the cell `i`. -/
def Touches (off n i : Nat) : Prop :=
  off ≤ i ∧ i < off + n

/- A write keeps what is stored in cells it does not touch. -/
theorem stores_pwrite_of_untouched
    {hole : α}
    {f : SparseFile α}
    {off n off' n' : Nat}
    {src src' : Nat → α}
    (hStored : Stores f off' src' n')
    (hUntouched :
      ∀ i, i < n' → ¬ Touches off n (off' + i)) :
    Stores (pwrite hole f off src n) off' src' n' := by
  intro i hi
  have hOut :
      ¬ (off ≤ off' + i ∧ off' + i < off + n) :=
    hUntouched i hi
  simp [pwrite, hOut, hStored i hi]

/- Cells past the end and past the write stay empty. -/
theorem pwrite_past_end
    (hole : α)
    {f : SparseFile α}
    {off n i : Nat}
    (src : Nat → α)
    (hEmpty : f i = none)
    (hPast : off + n ≤ i) :
    pwrite hole f off src n i = none := by
  have hOut : ¬ (off ≤ i ∧ i < off + n) := by omega
  have hGap : ¬ (i < off ∧ 0 < n) := by omega
  simp [pwrite, hOut, hGap, hEmpty]

/- A cell that is written holds what was copied there. -/
theorem pwrite_touched
    (hole : α)
    (f : SparseFile α)
    (src : Nat → α)
    {off n i : Nat}
    (hTouched : Touches off n i) :
    pwrite hole f off src n i = some (src (i - off)) :=
  if_pos hTouched

/-
  Reading cells past the end as holes, a write changes the
  cells that it touches only.
-/
theorem pwrite_untouched
    (hole : α)
    (f : SparseFile α)
    (src : Nat → α)
    {off n i : Nat}
    (hUntouched : ¬ Touches off n i) :
    (pwrite hole f off src n i).getD hole =
      (f i).getD hole := by
  unfold Touches at hUntouched
  unfold pwrite
  rw [if_neg hUntouched]
  split
  · exact Option.getD_some
  · rfl

/- A write changes nothing behind it. -/
theorem stores_pwrite_behind
    {hole : α}
    {f : SparseFile α}
    {off n off' n' : Nat}
    {src src' : Nat → α}
    (hBehind : off + n ≤ off') :
    Stores (pwrite hole f off src n) off' src' n' ↔
      Stores f off' src' n' := by
  have hSame :
      ∀ i, pwrite hole f off src n (off' + i) =
        f (off' + i) := by
    intro i
    have hOut :
        ¬ (off ≤ off' + i ∧ off' + i < off + n) := by omega
    have hGap : ¬ (off' + i < off ∧ 0 < n) := by omega
    unfold pwrite
    rw [if_neg hOut, if_neg hGap]
  simp only [Stores, hSame]

/- Slots of one size at different indices are disjoint. -/
theorem slots_disjoint
    {a b : Nat}
    (size : Nat)
    (hNe : a ≠ b) :
    a * size + size ≤ b * size ∨
      b * size + size ≤ a * size := by
  rcases Nat.lt_or_gt_of_ne hNe with hLt | hGt
  · left
    calc
      a * size + size = (a + 1) * size :=
        (Nat.succ_mul a size).symm
      _ ≤ b * size := Nat.mul_le_mul_right size hLt
  · right
    calc
      b * size + size = (b + 1) * size :=
        (Nat.succ_mul b size).symm
      _ ≤ a * size := Nat.mul_le_mul_right size hGt

end ByteMemory
