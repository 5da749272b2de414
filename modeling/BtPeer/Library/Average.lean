import Mathlib.Order.Lattice
import Mathlib.Tactic.Ring

/-
  The weighted average of an old value and a new one with
  both quotients truncated, `x * (k - 1) / k + s / k`.

  Key definitions include:
    * `average`

  Key theorems include:
    * `average_le`
    * `average_pos_iff`
-/

------------------------------------------------------------
-- Truncated Averages
------------------------------------------------------------

namespace TruncatedAverage

/- The old value `x` weighs `k - 1` times the new one `s`. -/
def average
    (k x s : Nat) : Nat :=
  x * (k - 1) / k + s / k

/- The average is no more than the larger of the two. -/
theorem average_le
    {k x s m : Nat}
    (hOld : x ≤ m)
    (hNew : s ≤ m) :
    average k x s ≤ m := by
  rcases Nat.eq_zero_or_pos k with rfl | hPos
  · simp [average]
  · have hSum : x * (k - 1) + s ≤ m * k := by
      calc x * (k - 1) + s
          ≤ m * (k - 1) + m :=
            Nat.add_le_add (Nat.mul_le_mul_right _ hOld) hNew
        _ = m * (k - 1 + 1) := by ring
        _ = m * k := by rw [Nat.sub_add_cancel hPos]
    calc average k x s
        ≤ (x * (k - 1) + s) / k :=
          Nat.div_add_div_le_add_div
      _ ≤ m * k / k := Nat.div_le_div_right hSum
      _ = m := Nat.mul_div_cancel m hPos

/-
  Truncation takes a positive value to zero only from 1, and
  then exactly with a new value below the weight.
-/
theorem average_pos_iff
    {k x s : Nat}
    (hWeight : 2 ≤ k)
    (hOld : 0 < x) :
    0 < average k x s ↔ ¬ (x = 1 ∧ s < k) := by
  have hK : 0 < k := by omega
  have hNewPart : 0 < s / k ↔ k ≤ s := Nat.div_pos_iff.trans
    (and_iff_right hK)
  have hOldPart : 0 < x * (k - 1) / k ↔ 2 ≤ x := by
    rw [Nat.div_pos_iff, and_iff_right hK]
    constructor
    · intro hLe
      by_contra hSmall
      have hOne : x = 1 := by omega
      rw [hOne] at hLe
      omega
    · intro hLarge
      have hTwice : 2 * (k - 1) ≤ x * (k - 1) :=
        Nat.mul_le_mul_right _ hLarge
      omega
  unfold average
  rw [Nat.add_pos_iff_pos_or_pos, hOldPart, hNewPart]
  omega

end TruncatedAverage
