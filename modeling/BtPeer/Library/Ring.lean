import Mathlib.Algebra.GroupWithZero.Nat
import Mathlib.Data.Fin.Basic
import Mathlib.Logic.Function.Basic

/-
  Circular windows over an unbounded sequence.

  A ring of `W` slots stands for the window of the `W`
  sequence numbers from `next` on; sequence number `s` uses
  slot `s % W`. Sliding frees the slots of the longest
  occupied prefix of the window and moves `next` past it.

  Key definitions include:
    * `RingWindow.SlotRing`
    * `RingWindow.SlotRing.mark`
    * `RingWindow.SlotRing.slide`
    * `RingWindow.SlotRing.Sound`
    * `RingWindow.SlotRing.Tracks`

  Key theorems include:
    * `RingWindow.SlotRing.sound_mark`
    * `RingWindow.SlotRing.sound_slide`
    * `RingWindow.SlotRing.passed_slide`
    * `RingWindow.SlotRing.slide_stops`
    * `RingWindow.SlotRing.slide_free`
    * `RingWindow.SlotRing.slide_mark_next`
    * `RingWindow.SlotRing.tracks_slide`
-/

------------------------------------------------------------
-- Rings
------------------------------------------------------------

namespace RingWindow

/- `W` slots and the first sequence number of the window. -/
structure SlotRing (W : Nat) where
  bit : Fin W → Bool
  next : Nat

variable {W : Nat} [NeZero W]

/- The slot that sequence number `s` uses. -/
def slot (s : Nat) : Fin W :=
  Fin.ofNat W s

/- Sequence numbers of one window use different slots. -/
theorem slot_ne
    {s t : Nat}
    (hLt : s < t)
    (hWindow : t < s + W) :
    (slot t : Fin W) ≠ slot s := by
  intro hEq
  have hMod : t % W = s % W := by
    simpa [slot, Fin.ofNat, Fin.ext_iff] using hEq
  have hZero : (t - s) % W = 0 :=
    Nat.sub_mod_eq_zero_of_mod_eq hMod
  have hSmall : (t - s) % W = t - s :=
    Nat.mod_eq_of_lt (by omega)
  omega

/- The sequence number one window later reuses the slot. -/
theorem slot_add_width
    (s : Nat) :
    (slot (s + W) : Fin W) = slot s := by
  simp [slot, Fin.ofNat]

namespace SlotRing

/- The slot of `s` is occupied. -/
def has
    (r : SlotRing W)
    (s : Nat) : Bool :=
  r.bit (slot s)

/- Occupy the slot of `s`. -/
def mark
    (r : SlotRing W)
    (s : Nat) : SlotRing W :=
  { r with bit := Function.update r.bit (slot s) true }

/- Free the first slot of the window and move past it. -/
def advance
    (r : SlotRing W) : SlotRing W :=
  { bit := Function.update r.bit (slot r.next) false
    next := r.next + 1 }

/- Advance while the first slot is occupied, at most `k` times. -/
def slideN : Nat → SlotRing W → SlotRing W
| 0, r => r
| k + 1, r => if r.has r.next then slideN k r.advance else r

/- Slide past the longest occupied prefix of the window. -/
def slide
    (r : SlotRing W) : SlotRing W :=
  slideN W r

@[simp] theorem mark_next
    (r : SlotRing W)
    (s : Nat) :
    (r.mark s).next = r.next := rfl

@[simp] theorem advance_next
    (r : SlotRing W) :
    r.advance.next = r.next + 1 := rfl

@[simp] theorem has_mark_self
    (r : SlotRing W)
    (s : Nat) :
    (r.mark s).has s = true := by
  simp [has, mark]

end SlotRing

end RingWindow

------------------------------------------------------------
-- Soundness Of The Occupied Slots
------------------------------------------------------------

namespace RingWindow

namespace SlotRing

variable {W : Nat} [NeZero W]
variable {P : Nat → Prop}

/- Every occupied sequence number of the window meets `P`. -/
def Sound
    (P : Nat → Prop)
    (r : SlotRing W) : Prop :=
  ∀ s,
    r.next ≤ s → s < r.next + W → r.has s = true → P s

theorem Sound.mono
    {Q : Nat → Prop}
    {r : SlotRing W}
    (hSound : Sound P r)
    (hImp : ∀ s, P s → Q s) :
    Sound Q r := by
  intro s hLow hHigh hHas
  exact hImp s (hSound s hLow hHigh hHas)

theorem sound_mark
    {r : SlotRing W}
    {s : Nat}
    (hSound : Sound P r)
    (hLow : r.next ≤ s)
    (hHigh : s < r.next + W)
    (hNew : P s) :
    Sound P (r.mark s) := by
  intro t hLowT hHighT hHas
  simp only [mark_next] at hLowT hHighT
  rcases Nat.lt_trichotomy s t with hLt | hEq | hGt
  · have hSlot : (slot t : Fin W) ≠ slot s :=
      slot_ne hLt (by omega)
    apply hSound t hLowT hHighT
    simpa [has, mark, hSlot] using hHas
  · exact hEq ▸ hNew
  · have hSlot : (slot t : Fin W) ≠ slot s :=
      (slot_ne hGt (by omega)).symm
    apply hSound t hLowT hHighT
    simpa [has, mark, hSlot] using hHas

theorem sound_advance
    {r : SlotRing W}
    (hSound : Sound P r) :
    Sound P r.advance := by
  intro t hLow hHigh hHas
  simp only [advance_next] at hLow hHigh
  by_cases hLast : t = r.next + W
  · subst hLast
    simp [has, advance, slot_add_width] at hHas
  · have hSlot : (slot t : Fin W) ≠ slot r.next :=
      slot_ne (by omega) (by omega)
    apply hSound t (by omega) (by omega)
    simpa [has, advance, hSlot] using hHas

theorem sound_slideN
    {r : SlotRing W}
    (hSound : Sound P r)
    (k : Nat) :
    Sound P (slideN k r) := by
  induction k generalizing r with
  | zero => exact hSound
  | succ k ih =>
      by_cases hHas : r.has r.next
      · simpa [slideN, hHas] using ih (sound_advance hSound)
      · simpa [slideN, hHas] using hSound

theorem sound_slide
    {r : SlotRing W}
    (hSound : Sound P r) :
    Sound P r.slide :=
  sound_slideN hSound W

end SlotRing

end RingWindow

------------------------------------------------------------
-- Where The Slide Stops
------------------------------------------------------------

namespace RingWindow

namespace SlotRing

variable {W : Nat} [NeZero W]
variable {P : Nat → Prop}

theorem slideN_next
    (k : Nat)
    (r : SlotRing W) :
    r.next ≤ (slideN k r).next ∧
      (slideN k r).next ≤ r.next + k := by
  induction k generalizing r with
  | zero => simp [slideN]
  | succ k ih =>
      by_cases hHas : r.has r.next
      · have hRest := ih r.advance
        simp only [advance_next] at hRest
        simp only [slideN, hHas, if_true]
        omega
      · simp [slideN, hHas]

/- The slide passes occupied sequence numbers only. -/
theorem passed_slideN
    {k : Nat}
    (hk : k ≤ W)
    {r : SlotRing W}
    (hSound : Sound P r)
    {s : Nat}
    (hLow : r.next ≤ s)
    (hHigh : s < (slideN k r).next) :
    P s := by
  induction k generalizing r with
  | zero =>
      simp only [slideN] at hHigh
      omega
  | succ k ih =>
      by_cases hHas : r.has r.next
      · simp only [slideN, hHas, if_true] at hHigh
        by_cases hFirst : s = r.next
        · subst hFirst
          exact hSound r.next (Nat.le_refl _) (by omega) hHas
        · exact ih (by omega) (sound_advance hSound)
            (by simp only [advance_next]; omega) hHigh
      · simp only [slideN, hHas] at hHigh
        simp only [Bool.false_eq_true, if_false] at hHigh
        omega

theorem passed_slide
    {r : SlotRing W}
    (hSound : Sound P r)
    {s : Nat}
    (hLow : r.next ≤ s)
    (hHigh : s < r.slide.next) :
    P s :=
  passed_slideN (Nat.le_refl W) hSound hLow hHigh

/-
  The slide ends at a free slot, or it went through all the
  steps it was given.
-/
theorem slideN_stops
    (k : Nat)
    (r : SlotRing W) :
    (slideN k r).next = r.next + k ∨
      (slideN k r).has (slideN k r).next = false := by
  induction k generalizing r with
  | zero => simp [slideN]
  | succ k ih =>
      by_cases hHas : r.has r.next
      · have hRest := ih r.advance
        simp only [advance_next] at hRest
        simp only [slideN, hHas, if_true]
        rcases hRest with hAll | hFree
        · left
          omega
        · exact Or.inr hFree
      · simp [slideN, hHas]

theorem slide_next_le
    (r : SlotRing W) :
    r.next ≤ r.slide.next :=
  (slideN_next W r).1

theorem slide_next_lt
    (r : SlotRing W) :
    r.slide.next ≤ r.next + W :=
  (slideN_next W r).2

/- An occupied first slot is passed. -/
theorem slideN_next_gt
    {k : Nat}
    (hSome : 0 < k)
    {r : SlotRing W}
    (hFirst : r.has r.next = true) :
    r.next < (slideN k r).next := by
  cases k with
  | zero => exact absurd hSome (Nat.lt_irrefl 0)
  | succ k =>
      have hRest := (slideN_next k r.advance).1
      rw [slideN, if_pos hFirst]
      exact hRest

theorem slide_next_gt
    {r : SlotRing W}
    (hFirst : r.has r.next = true) :
    r.next < r.slide.next :=
  slideN_next_gt (Nat.pos_of_ne_zero (NeZero.ne W)) hFirst

theorem slide_stops
    (r : SlotRing W) :
    r.slide.next = r.next + W ∨
      r.slide.has r.slide.next = false :=
  slideN_stops W r

/- The slot that the slide ends at is free in any case. -/
theorem slide_free
    (r : SlotRing W) :
    r.slide.has r.slide.next = false := by
  rcases slide_stops r with hAll | hFree
  · -- every number behind the old window is free
    have hSound : Sound (fun s => s < r.next + W) r :=
      fun _ _ hHigh _ => hHigh
    have hPos := Nat.pos_of_ne_zero (NeZero.ne W)
    rw [Bool.eq_false_iff]
    intro hHas
    have hBelow :=
      sound_slide hSound r.slide.next (Nat.le_refl _)
        (by omega) hHas
    rw [hAll] at hBelow
    exact absurd hBelow (Nat.lt_irrefl _)
  · exact hFree

/- Sliding does nothing when the first slot is free. -/
theorem slideN_eq_self
    {r : SlotRing W}
    (hFree : r.has r.next = false)
    (k : Nat) :
    slideN k r = r := by
  cases k with
  | zero => rfl
  | succ k => simp [slideN, hFree]

theorem slide_eq_self
    {r : SlotRing W}
    (hFree : r.has r.next = false) :
    r.slide = r :=
  slideN_eq_self hFree W

/-
  A sequence number that arrives in order, with no other slot
  occupied, is passed at once and leaves nothing behind.
-/
theorem slide_mark_next
    {r : SlotRing W}
    (hClear : ∀ s, r.has s = false) :
    (r.mark r.next).slide =
      { r with next := r.next + 1 } := by
  have hFree : r.bit (slot r.next) = false := hClear r.next
  have hAdvance :
      (r.mark r.next).advance =
        { r with next := r.next + 1 } := by
    simp only [advance, mark, Function.update_idem]
    rw [← hFree, Function.update_eq_self]
  have hStop :
      SlotRing.has { r with next := r.next + 1 }
        (r.next + 1) = false :=
    hClear (r.next + 1)
  obtain ⟨k, hk⟩ : ∃ k, W = k + 1 :=
    Nat.exists_eq_succ_of_ne_zero (NeZero.ne W)
  calc
    (r.mark r.next).slide =
        slideN (k + 1) (r.mark r.next) := by
      rw [← hk]
      rfl
    _ = slideN k (r.mark r.next).advance := by
      simp [slideN]
    _ = { r with next := r.next + 1 } := by
      rw [hAdvance]
      exact slideN_eq_self hStop k

end SlotRing

end RingWindow

------------------------------------------------------------
-- Rings That Track A Set
------------------------------------------------------------

namespace RingWindow

namespace SlotRing

variable {W : Nat} [NeZero W]
variable {P : Nat → Prop}

/-
  The ring knows exactly which sequence numbers from `first`
  on meet `P`: all that it has passed, the occupied ones of
  the window, and none behind the window.
-/
structure Tracks
    (first : Nat)
    (P : Nat → Prop)
    (r : SlotRing W) : Prop where
  passed : ∀ s, first ≤ s → s < r.next → P s
  window :
    ∀ s, r.next ≤ s → s < r.next + W →
      (r.has s = true ↔ P s)
  ahead : ∀ s, r.next + W ≤ s → ¬ P s

variable {first : Nat}

theorem Tracks.congr
    {Q : Nat → Prop}
    {r : SlotRing W}
    (hTracks : Tracks first P r)
    (hIff : ∀ s, P s ↔ Q s) :
    Tracks first Q r where
  passed := fun s hFirst hPast =>
    (hIff s).mp (hTracks.passed s hFirst hPast)
  window := fun s hLow hHigh =>
    (hTracks.window s hLow hHigh).trans (hIff s)
  ahead := fun s hAhead hQ =>
    hTracks.ahead s hAhead ((hIff s).mpr hQ)

/- A sequence number is marked as it comes to meet `P`. -/
theorem tracks_mark
    {r : SlotRing W}
    (hTracks : Tracks first P r)
    {s : Nat}
    (hLow : r.next ≤ s)
    (hHigh : s < r.next + W) :
    Tracks first (fun t => P t ∨ t = s) (r.mark s) where
  passed := by
    intro t hFirst hPast
    exact Or.inl (hTracks.passed t hFirst hPast)
  window := by
    intro t hLowT hHighT
    simp only [mark_next] at hLowT hHighT
    rcases Nat.lt_trichotomy s t with hLt | hEq | hGt
    · have hSlot : (slot t : Fin W) ≠ slot s :=
        slot_ne hLt (by omega)
      rw [← hTracks.window t hLowT hHighT]
      simp [has, mark, hSlot, Nat.ne_of_gt hLt]
    · subst hEq
      simp
    · have hSlot : (slot t : Fin W) ≠ slot s :=
        (slot_ne hGt (by omega)).symm
      rw [← hTracks.window t hLowT hHighT]
      simp [has, mark, hSlot, Nat.ne_of_lt hGt]
  ahead := by
    intro t hAhead hOr
    simp only [mark_next] at hAhead
    rcases hOr with hP | hEq
    · exact hTracks.ahead t hAhead hP
    · omega

theorem tracks_advance
    {r : SlotRing W}
    (hTracks : Tracks first P r)
    (hHas : r.has r.next = true) :
    Tracks first P r.advance where
  passed := by
    intro t hFirst hPast
    simp only [advance_next] at hPast
    by_cases hLast : t = r.next
    · subst hLast
      exact
        (hTracks.window r.next (Nat.le_refl _)
          (Nat.lt_add_of_pos_right
            (Nat.pos_of_neZero W))).mp hHas
    · exact hTracks.passed t hFirst (by omega)
  window := by
    intro t hLow hHigh
    simp only [advance_next] at hLow hHigh
    by_cases hLast : t = r.next + W
    · subst hLast
      have hNot := hTracks.ahead (r.next + W) (Nat.le_refl _)
      simp [has, advance, slot_add_width, hNot]
    · have hSlot : (slot t : Fin W) ≠ slot r.next :=
        slot_ne (by omega) (by omega)
      rw [← hTracks.window t (by omega) (by omega)]
      simp [has, advance, hSlot]
  ahead := by
    intro t hAhead
    simp only [advance_next] at hAhead
    exact hTracks.ahead t (by omega)

theorem tracks_slideN
    {r : SlotRing W}
    (hTracks : Tracks first P r)
    (k : Nat) :
    Tracks first P (slideN k r) := by
  induction k generalizing r with
  | zero => exact hTracks
  | succ k ih =>
      by_cases hHas : r.has r.next = true
      · simpa only [slideN, hHas, if_true]
          using ih (tracks_advance hTracks hHas)
      · simpa only [slideN, hHas, Bool.false_eq_true, if_false]
          using hTracks

/- The slide stops in front of the first missing number. -/
theorem tracks_slide
    {r : SlotRing W}
    (hTracks : Tracks first P r) :
    Tracks first P r.slide ∧ ¬ P r.slide.next := by
  have hSlid := tracks_slideN hTracks W
  refine ⟨hSlid, ?_⟩
  rcases slide_stops r with hAll | hFree
  · rw [hAll]
    exact hTracks.ahead _ (Nat.le_refl _)
  · intro hP
    have hHas :=
      (hSlid.window r.slide.next (Nat.le_refl _)
        (Nat.lt_add_of_pos_right (Nat.pos_of_neZero W))).mpr hP
    have hFreeN :
        (slideN W r).has r.slide.next = false := hFree
    rw [hFreeN] at hHas
    exact Bool.false_ne_true hHas

end SlotRing

end RingWindow
