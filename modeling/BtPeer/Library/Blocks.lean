import Mathlib.Data.List.Basic

/-
  Streams that are consumed in blocks.

  A machine with the transition function `f` takes `n` cells
  at a time. `absorb` feeds it the whole blocks of a list and
  returns what is left over. Fed piece by piece, with the
  left-over cells kept in front of the next piece, the
  machine ends where it ends on the pieces put together.

  Key definitions include:
    * `BlockStream.absorb`
    * `BlockStream.feed`

  Key theorems include:
    * `BlockStream.absorb_block`
    * `BlockStream.absorb_append`
    * `BlockStream.feed_feed`
-/

------------------------------------------------------------
-- Absorbing
------------------------------------------------------------

namespace BlockStream

variable {α σ : Type*}

/- The first `k` blocks of a list, and the cells behind. -/
def absorbBlocks
    (n : Nat)
    (f : σ → List α → σ) :
    Nat → σ → List α → σ × List α
| 0, s, xs => (s, xs)
| k + 1, s, xs =>
    absorbBlocks n f k (f s (xs.take n)) (xs.drop n)

/- All whole blocks of a list. -/
def absorb
    (n : Nat)
    (f : σ → List α → σ)
    (s : σ)
    (xs : List α) : σ × List α :=
  absorbBlocks n f (xs.length / n) s xs

section

variable {n : Nat}
variable {f : σ → List α → σ}

theorem absorb_of_lt
    {xs : List α}
    (s : σ)
    (hShort : xs.length < n) :
    absorb n f s xs = (s, xs) := by
  unfold absorb
  rw [Nat.div_eq_of_lt hShort]
  rfl

theorem absorb_block
    {xs : List α}
    (s : σ)
    (hPos : 0 < n)
    (hLong : n ≤ xs.length) :
    absorb n f s xs =
      absorb n f (f s (xs.take n)) (xs.drop n) := by
  have hCount :
      xs.length / n = (xs.drop n).length / n + 1 := by
    rw [List.length_drop, Nat.div_eq_sub_div hPos hLong]
  unfold absorb
  rw [hCount]
  rfl

/- One block in front of the others. -/
theorem absorb_append_of_length
    {xs : List α}
    (s : σ)
    (ys : List α)
    (hPos : 0 < n)
    (hLength : xs.length = n) :
    absorb n f s (xs ++ ys) = absorb n f (f s xs) ys := by
  have hLong : n ≤ (xs ++ ys).length := by
    rw [List.length_append, hLength]
    exact Nat.le_add_right n _
  rw [absorb_block s hPos hLong,
    List.take_left' hLength, List.drop_left' hLength]

theorem absorb_rest_length
    (s : σ)
    (hPos : 0 < n)
    (xs : List α) :
    (absorb n f s xs).2.length = xs.length % n := by
  induction hLen : xs.length using Nat.strongRecOn
    generalizing s xs with
  | ind len ih =>
      by_cases hShort : xs.length < n
      · rw [absorb_of_lt s hShort, ← hLen,
          Nat.mod_eq_of_lt hShort]
      · have hLong := Nat.not_lt.mp hShort
        have hRest : (xs.drop n).length = len - n := by
          rw [List.length_drop, hLen]
        rw [absorb_block s hPos hLong,
          ih (len - n) (by omega) _ _ hRest,
          ← Nat.mod_eq_sub_mod (by omega)]

/- A list in two parts: the rest of the first is kept. -/
theorem absorb_append
    (s : σ)
    (hPos : 0 < n)
    (xs ys : List α) :
    absorb n f s (xs ++ ys) =
      absorb n f (absorb n f s xs).1
        ((absorb n f s xs).2 ++ ys) := by
  induction hLen : xs.length using Nat.strongRecOn
    generalizing s xs with
  | ind len ih =>
      by_cases hShort : xs.length < n
      · rw [absorb_of_lt s hShort]
      · have hLong := Nat.not_lt.mp hShort
        have hTake : (xs.take n).length = n :=
          List.length_take_of_le hLong
        have hRest : (xs.drop n).length = len - n := by
          rw [List.length_drop, hLen]
        have hSplit :
            xs ++ ys = xs.take n ++ (xs.drop n ++ ys) := by
          rw [← List.append_assoc, List.take_append_drop]
        rw [hSplit, absorb_append_of_length s _ hPos hTake,
          ih (len - n) (by omega) _ _ hRest,
          absorb_block s hPos hLong]

end

end BlockStream

------------------------------------------------------------
-- Feeding Pieces
------------------------------------------------------------

namespace BlockStream

variable {α σ : Type*}
variable {n : Nat}
variable {f : σ → List α → σ}

/- The next piece, behind the cells that are still waiting. -/
def feed
    (n : Nat)
    (f : σ → List α → σ)
    (m : σ × List α)
    (xs : List α) : σ × List α :=
  absorb n f m.1 (m.2 ++ xs)

theorem feed_nil
    {m : σ × List α}
    (hRoom : m.2.length < n) :
    feed n f m [] = m := by
  rw [feed, List.append_nil, absorb_of_lt m.1 hRoom]

theorem feed_feed
    (m : σ × List α)
    (hPos : 0 < n)
    (xs ys : List α) :
    feed n f (feed n f m xs) ys = feed n f m (xs ++ ys) := by
  unfold feed
  rw [← List.append_assoc,
    absorb_append m.1 hPos (m.2 ++ xs) ys]

end BlockStream
