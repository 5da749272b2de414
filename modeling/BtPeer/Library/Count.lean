import Mathlib.Data.Nat.Count

/-
  Counting the indices below a bound that satisfy a
  predicate, when the predicate changes at one index.

  Key theorems include:
    * `Nat.count_eq_of_agree`
    * `Nat.count_change`
-/

------------------------------------------------------------
-- Agreement And Single Changes
------------------------------------------------------------

namespace Nat

variable {p q : Nat → Prop}
variable [DecidablePred p] [DecidablePred q]

/- Predicates that agree below the bound count the same. -/
theorem count_eq_of_agree
    {n : Nat}
    (hAgree : ∀ k, k < n → (p k ↔ q k)) :
    count p n = count q n := by
  induction n with
  | zero => simp
  | succ n ih =>
      have hPrefix :=
        ih (fun k hk => hAgree k (Nat.lt_succ_of_lt hk))
      have hLast := hAgree n (Nat.lt_succ_self n)
      simp only [count_succ, hPrefix, hLast]

/-
  A change at one index below the bound moves the count by
  what the index counted for before and counts for now.
-/
theorem count_change
    {n i : Nat}
    (hi : i < n)
    (hRest : ∀ k, k ≠ i → (p k ↔ q k)) :
    count q n + (if p i then 1 else 0) =
      count p n + (if q i then 1 else 0) := by
  induction n with
  | zero => omega
  | succ n ih =>
      by_cases hLast : i = n
      · subst hLast
        have hPrefix : count p i = count q i :=
          count_eq_of_agree
            (fun k hk => hRest k (Nat.ne_of_lt hk))
        simp only [count_succ, hPrefix]
        omega
      · have hPrefix := ih (by omega)
        have hSame := hRest n (fun h => hLast h.symm)
        simp only [count_succ, hSame]
        omega

end Nat
