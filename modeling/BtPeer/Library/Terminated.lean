import Mathlib.Data.List.TakeWhile
import Mathlib.Logic.Function.Basic

/-
  Strings in memory that a terminator ends, over an arbitrary
  type of characters.

  Key definitions include:
    * `Spells`
    * `stringAt`

  Key theorems include:
    * `Spells.unique`
    * `Spells.of_ended`
    * `Spells.cut`
    * `Spells.drop`
    * `Spells.append`
-/

------------------------------------------------------------
-- Terminated Strings
------------------------------------------------------------

namespace TerminatedString

variable {α : Type*}

/- The string `s` stands at the start of the memory `m`. -/
structure Spells
    (nul : α)
    (m : Nat → α)
    (s : List α) : Prop where
  cells : ∀ i (hi : i < s.length), m i = s[i]
  text : nul ∉ s
  ended : m s.length = nul

namespace Spells

variable {nul : α}
variable {m m' : Nat → α}
variable {s t : List α}

/- A cell in front of the terminator is not the terminator. -/
theorem cell_ne
    (hSpells : Spells nul m s)
    {i : Nat}
    (hi : i < s.length) :
    m i ≠ nul := by
  intro hNul
  rw [hSpells.cells i hi] at hNul
  exact hSpells.text (hNul ▸ List.getElem_mem hi)

theorem length_le
    (hFirst : Spells nul m s)
    (hSecond : Spells nul m t) :
    s.length ≤ t.length := by
  by_contra hLonger
  exact hFirst.cell_ne (Nat.not_le.mp hLonger) hSecond.ended

/- Only one string stands there. -/
theorem unique
    (hFirst : Spells nul m s)
    (hSecond : Spells nul m t) :
    s = t := by
  apply List.ext_getElem
  · exact Nat.le_antisymm (hFirst.length_le hSecond)
      (hSecond.length_le hFirst)
  · intro i hi hi'
    rw [← hFirst.cells i hi, ← hSecond.cells i hi']

/- Memory that is the same up to the terminator. -/
theorem congr
    (hSpells : Spells nul m s)
    (hSame : ∀ i, i ≤ s.length → m' i = m i) :
    Spells nul m' s where
  cells := by
    intro i hi
    rw [hSame i (Nat.le_of_lt hi)]
    exact hSpells.cells i hi
  text := hSpells.text
  ended := by
    rw [hSame s.length (Nat.le_refl _)]
    exact hSpells.ended

/- A terminator written into a string cuts it there. -/
theorem cut
    (hSpells : Spells nul m (s ++ t)) :
    Spells nul (Function.update m s.length nul) s where
  cells := by
    intro i hi
    rw [Function.update_of_ne (Nat.ne_of_lt hi),
      hSpells.cells i (by
        rw [List.length_append]
        omega)]
    exact List.getElem_append_left hi
  text := by
    intro hMem
    exact hSpells.text (List.mem_append_left t hMem)
  ended := Function.update_self s.length nul m

/- The rest of a string stands behind its beginning. -/
theorem drop
    (hSpells : Spells nul m (s ++ t)) :
    Spells nul (fun i => m (s.length + i)) t where
  cells := by
    intro i hi
    rw [hSpells.cells (s.length + i) (by
        rw [List.length_append]
        omega),
      List.getElem_append_right (Nat.le_add_right _ _)]
    simp only [Nat.add_sub_cancel_left]
  text := by
    intro hMem
    exact hSpells.text (List.mem_append_right s hMem)
  ended := by
    have hEnded := hSpells.ended
    rwa [List.length_append] at hEnded

/- A string behind cells without a terminator. -/
theorem append
    (hCells : ∀ i (hi : i < s.length), m i = s[i])
    (hText : nul ∉ s)
    (hRest : Spells nul (fun i => m (s.length + i)) t) :
    Spells nul m (s ++ t) where
  cells := by
    intro i hi
    by_cases hFirst : i < s.length
    · rw [List.getElem_append_left hFirst]
      exact hCells i hFirst
    · rw [List.length_append] at hi
      have hCell := hRest.cells (i - s.length) (by omega)
      have hIndex : s.length + (i - s.length) = i := by omega
      rw [hIndex] at hCell
      rw [List.getElem_append_right (Nat.not_lt.mp hFirst)]
      exact hCell
  text := by
    intro hMem
    rcases List.mem_append.mp hMem with hFirst | hSecond
    · exact hText hFirst
    · exact hRest.text hSecond
  ended := by
    rw [List.length_append]
    exact hRest.ended

end Spells

end TerminatedString

------------------------------------------------------------
-- Reading Strings
------------------------------------------------------------

namespace TerminatedString

variable {α : Type*} [DecidableEq α]

/- The string at the start of the first `n` cells. -/
def stringAt
    (nul : α)
    (m : Nat → α)
    (n : Nat) : List α :=
  ((List.range n).map m).takeWhile (fun c => c ≠ nul)

theorem stringAt_succ
    (nul : α)
    (m : Nat → α)
    (n : Nat) :
    stringAt nul m (n + 1) =
      if m 0 = nul then []
      else m 0 :: stringAt nul (fun i => m (i + 1)) n := by
  unfold stringAt
  rw [List.range_succ_eq_map, List.map_cons, List.map_map,
    List.takeWhile_cons]
  by_cases hNul : m 0 = nul
  · rw [if_pos hNul, if_neg (by simp [hNul])]
  · rw [if_neg hNul, if_pos (by simp [hNul])]
    rfl

/- A terminator among the cells ends a string. -/
theorem Spells.of_ended
    {nul : α}
    {m : Nat → α}
    {n k : Nat}
    (hk : k < n)
    (hEnded : m k = nul) :
    Spells nul m (stringAt nul m n) ∧
      (stringAt nul m n).length ≤ k := by
  induction n generalizing k m with
  | zero => omega
  | succ n ih =>
      rw [stringAt_succ]
      by_cases hNul : m 0 = nul
      · rw [if_pos hNul]
        refine ⟨⟨?_, List.not_mem_nil, hNul⟩, Nat.zero_le k⟩
        intro i hi
        cases hi
      · rw [if_neg hNul]
        have hLater : k ≠ 0 := by
          rintro rfl
          exact hNul hEnded
        have hIndex : k - 1 + 1 = k := by omega
        rcases @ih (fun i => m (i + 1)) (k - 1) (by omega)
            (by rwa [hIndex]) with ⟨hRest, hLength⟩
        constructor
        · have hCons :=
            @Spells.append α nul m [m 0]
              (stringAt nul (fun i => m (i + 1)) n)
              (by
                intro i hi
                have hZero : i = 0 := by
                  simp only [List.length_singleton] at hi
                  omega
                simp [hZero])
              (by
                rw [List.mem_singleton]
                exact fun hEq => hNul hEq.symm)
              (hRest.congr (by
                intro i _
                rw [List.length_singleton, Nat.add_comm]))
          exact hCons
        · rw [List.length_cons]
          omega

end TerminatedString
