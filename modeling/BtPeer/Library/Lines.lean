import Mathlib.Data.List.Basic

/-
  A text cut at its separators: the pieces that a separator
  ends, and what is left behind the last one.

  Key definitions include:
    * `terminated`
    * `unterminated`

  Key theorems include:
    * `text_induction`
    * `terminated_append`
    * `unterminated_append`
    * `eq_of_pieces`
-/

------------------------------------------------------------
-- Pieces
------------------------------------------------------------

namespace LineSplitting

variable {α : Type*} [DecidableEq α]

/- The pieces that end with a separator, without it. -/
def terminated
    (sep : α)
    (text : List α) : List (List α) :=
  (text.splitOn sep).dropLast

/- What stands behind the last separator. -/
def unterminated
    (sep : α)
    (text : List α) : List α :=
  (text.splitOn sep).getLast (List.splitOn_ne_nil sep text)

variable {sep : α}

/- A text without a separator, or one in front of a text. -/
theorem text_induction
    (sep : α)
    {motive : List α → Prop}
    (hNone : ∀ text, sep ∉ text → motive text)
    (hLine :
      ∀ xs ys, motive ys → motive (xs ++ sep :: ys))
    (text : List α) :
    motive text := by
  by_cases hMem : sep ∈ text
  · rcases List.append_of_mem hMem with ⟨xs, ys, hText⟩
    have hShorter : ys.length < text.length := by
      rw [hText, List.length_append, List.length_cons]
      omega
    rw [hText]
    exact hLine xs ys (text_induction sep hNone hLine ys)
  · exact hNone text hMem
termination_by text.length

theorem terminated_of_not_mem
    {text : List α}
    (hNone : sep ∉ text) :
    terminated sep text = [] := by
  rw [terminated, List.splitOn_eq_singleton hNone]
  rfl

theorem unterminated_of_not_mem
    {text : List α}
    (hNone : sep ∉ text) :
    unterminated sep text = text := by
  simp only [unterminated, List.splitOn_eq_singleton hNone,
    List.getLast_singleton]

theorem terminated_append_cons
    (xs ys : List α) :
    terminated sep (xs ++ sep :: ys) =
      xs.splitOn sep ++ terminated sep ys := by
  rw [terminated, List.splitOn_append_cons_self,
    List.dropLast_append_of_ne_nil
      (List.splitOn_ne_nil sep ys)]
  rfl

theorem unterminated_append_cons
    (xs ys : List α) :
    unterminated sep (xs ++ sep :: ys) =
      unterminated sep ys := by
  simp only [unterminated, List.splitOn_append_cons_self]
  exact List.getLast_append_of_ne_nil _
    (List.splitOn_ne_nil sep ys)

/- The first line and the lines behind it. -/
theorem terminated_line
    {line : List α}
    (hLine : sep ∉ line)
    (text : List α) :
    terminated sep (line ++ sep :: text) =
      line :: terminated sep text := by
  rw [terminated_append_cons,
    List.splitOn_eq_singleton hLine, List.singleton_append]

/- The rest is not longer than the text. -/
theorem unterminated_length_le
    (text : List α) :
    (unterminated sep text).length ≤ text.length := by
  induction text using text_induction sep with
  | hNone text hNone =>
      exact Nat.le_of_eq
        (congrArg List.length (unterminated_of_not_mem hNone))
  | hLine xs ys ih =>
      rw [unterminated_append_cons, List.length_append,
        List.length_cons]
      omega

/-
  Reading on: the lines of a longer text are those of the
  first part and those of its rest with the second part.
-/
theorem terminated_append
    (xs ys : List α) :
    terminated sep (xs ++ ys) =
      terminated sep xs ++
        terminated sep (unterminated sep xs ++ ys) := by
  induction xs using text_induction sep with
  | hNone xs hNone =>
      rw [terminated_of_not_mem hNone,
        unterminated_of_not_mem hNone, List.nil_append]
  | hLine as bs ih =>
      rw [List.append_assoc, List.cons_append,
        terminated_append_cons, terminated_append_cons,
        unterminated_append_cons, ih, List.append_assoc]

theorem unterminated_append
    (xs ys : List α) :
    unterminated sep (xs ++ ys) =
      unterminated sep (unterminated sep xs ++ ys) := by
  induction xs using text_induction sep with
  | hNone xs hNone => rw [unterminated_of_not_mem hNone]
  | hLine as bs ih =>
      rw [List.append_assoc, List.cons_append,
        unterminated_append_cons, unterminated_append_cons,
        ih]

/- The pieces determine the text. -/
theorem eq_of_pieces
    {xs ys : List α}
    (hLines : terminated sep xs = terminated sep ys)
    (hRest : unterminated sep xs = unterminated sep ys) :
    xs = ys := by
  have hSplit :
      ∀ text : List α,
        text.splitOn sep =
          terminated sep text ++ [unterminated sep text] :=
    fun text =>
      (List.dropLast_append_getLast
        (List.splitOn_ne_nil sep text)).symm
  have hJoin :
      ∀ text : List α,
        [sep].intercalate (text.splitOn sep) = text :=
    fun _ => List.intercalate_splitOn sep
  have hSame : xs.splitOn sep = ys.splitOn sep := by
    rw [hSplit xs, hSplit ys, hLines, hRest]
  rw [← hJoin xs, hSame, hJoin ys]

end LineSplitting
