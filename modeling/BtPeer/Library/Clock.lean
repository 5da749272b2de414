import Mathlib.Data.Nat.Basic

/-
  Deadlines on a clock that is read modulo a period.

  Only the residue of a deadline is stored, and it is
  compared with the residue of the present time. The residue
  0 stands for no deadline.

  Key definitions include:
    * `WrapClock.Fires`
    * `WrapClock.Honest`

  Key theorems include:
    * `WrapClock.fires_right_iff`
    * `WrapClock.fires_agrees_iff`
-/

------------------------------------------------------------
-- Stored Deadlines
------------------------------------------------------------

namespace WrapClock

variable {W : Nat}

/- The stored deadline is taken for one that has passed. -/
def Fires (W d now : Nat) : Prop :=
  d % W ≠ 0 ∧ d % W ≤ now % W

/-
  The residues of the deadline and of the present time are in
  the order of the times themselves. Within one period they
  always are, so only a stored 0 misleads. A deadline of an
  earlier period is taken for a later one while the clock has
  not come as far as in its period, and one of a later period
  for a passed one as soon as the clock is past its residue.
-/
def Honest (W d now : Nat) : Prop :=
  (d / W = now / W ∧ d % W ≠ 0) ∨
    (d / W < now / W ∧ d % W ≠ 0 ∧ d % W ≤ now % W) ∨
    (now / W < d / W ∧ (d % W = 0 ∨ now % W < d % W))

instance decidableHonest
    (W d now : Nat) :
    Decidable (Honest W d now) :=
  inferInstanceAs
    (Decidable
      ((d / W = now / W ∧ d % W ≠ 0) ∨
        (d / W < now / W ∧ d % W ≠ 0 ∧ d % W ≤ now % W) ∨
        (now / W < d / W ∧
          (d % W = 0 ∨ now % W < d % W))))

/- Within one period the residues are in order. -/
theorem mod_le_mod_iff
    {d now : Nat}
    (hPeriod : d / W = now / W) :
    d % W ≤ now % W ↔ d ≤ now := by
  have hDeadline := Nat.div_add_mod d W
  have hNow := Nat.div_add_mod now W
  rw [hPeriod] at hDeadline
  omega

/- An honest deadline fires exactly when it has passed. -/
theorem fires_right_iff
    (W d now : Nat) :
    (Fires W d now ↔ d ≤ now) ↔ Honest W d now := by
  unfold Fires Honest
  rcases Nat.lt_trichotomy (d / W) (now / W) with
    hEarlier | hSame | hLater
  · have hPassed : d ≤ now :=
      Nat.le_of_lt (Nat.lt_of_div_lt_div hEarlier)
    simp only [hPassed, iff_true, hEarlier,
      Nat.ne_of_lt hEarlier, Nat.lt_asymm hEarlier, true_and,
      false_and, false_or, or_false]
  · rw [mod_le_mod_iff hSame]
    simp only [hSame, Nat.lt_irrefl, true_and, false_and,
      or_false]
    constructor
    · rintro hRight hZero
      have hOrder := mod_le_mod_iff hSame
      rw [hZero] at hOrder
      have hPassed := hOrder.mp (Nat.zero_le _)
      exact (hRight.mpr hPassed).1 hZero
    · intro hSome
      exact and_iff_right hSome
  · have hNotYet : ¬ d ≤ now :=
      Nat.not_le.mpr (Nat.lt_of_div_lt_div hLater)
    simp only [hNotYet, iff_false, hLater,
      Nat.ne_of_gt hLater, Nat.lt_asymm hLater, true_and,
      false_and, false_or, not_and_or, ne_eq,
      Decidable.not_not, Nat.not_le]

/-
  A stored deadline `d` tells whether another deadline `d'`
  has passed when it is right about itself and both have
  passed or both have not, or when it is wrong about itself
  and one of them has passed.
-/
theorem fires_agrees_iff
    (W d d' now : Nat) :
    (Fires W d now ↔ d' ≤ now) ↔
      (Honest W d now ↔ (d ≤ now ↔ d' ≤ now)) := by
  rw [← fires_right_iff]
  by_cases hPassed : d ≤ now
  · simp only [hPassed, iff_true, true_iff]
  · by_cases hPassed' : d' ≤ now
    · simp only [hPassed, hPassed', iff_true, iff_false,
        not_not]
    · simp only [hPassed, hPassed', iff_false, iff_true]

end WrapClock
