import BtPeer.Transfer.Karn
import BtPeer.Download
import BtPeer.Library.Average

/-
  The round trip estimate over a sequence of samples: when it
  stays between one and the largest sample.

  Key definitions include:
    * `RttSample`
    * `Estimate.step`
    * `Estimate.Exact`
    * `Estimate.Steady`

  Key theorems include:
    * `Estimate.step_rtt`
    * `Estimate.step_within_iff`
    * `Estimate.step_dev_le`
    * `estimate_within_iff`
    * `Estimate.steady_of_samples`
-/

------------------------------------------------------------
-- Samples
------------------------------------------------------------

namespace BtPeer

/- What `update_rtt` keeps: `rtt` and `dev`. -/
structure Estimate where
  rtt : Word
  dev : Word

/-
  A call of `update_rtt` that takes a sample: the time `ts`
  was recorded.
-/
structure RttSample where
  now : Word
  ts : Word
  recorded : ts ≠ 0

namespace RttSample

/- `s_rtt`. -/
def sRtt
    (e : RttSample) : Word :=
  e.now - e.ts

end RttSample

namespace Estimate

/- The estimate after one call. -/
def step
    (est : Estimate)
    (e : RttSample) : Estimate :=
  let new := updateRtt e.now est.rtt est.dev e.ts
  ⟨new.1, new.2⟩

/- No product of the next call leaves 32 bits. -/
structure Exact
    (est : Estimate) : Prop where
  rtt : est.rtt.toNat * 7 < 2 ^ 32
  dev : est.dev.toNat * 3 < 2 ^ 32

/- The estimate lies between 1 and `m`. -/
structure Within
    (m : Word)
    (est : Estimate) : Prop where
  low : 1 ≤ est.rtt
  high : est.rtt ≤ m

/-
  The next sample leaves the estimate sound: it does not
  truncate to zero, and the two old values leave room for the
  factors 7 and 3.
-/
structure Steady
    (est : Estimate)
    (e : RttSample) : Prop where
  kept : ¬ (est.rtt = 1 ∧ e.sRtt < 8)
  rtt : est.rtt ≤ 613566756
  dev : est.dev ≤ 1431655765

end Estimate

end BtPeer

------------------------------------------------------------
-- The Estimates Of The Two Sides
------------------------------------------------------------

namespace BtPeer

/- The acknowledgements that sample, as steps. -/
theorem Upload.Samples.estimate_step
    {ul : Upload}
    {ack : Word}
    (hSamples : ul.Samples ack)
    (now : Word) :
    Estimate.mk (ulHandleAck now ul ack).rtt
        (ulHandleAck now ul ack).dev =
      Estimate.step ⟨ul.rtt, ul.dev⟩
        ⟨now, ul.seqTs ack.toNat, hSamples.recorded⟩ := by
  have hBoth := (ulHandleAck_estimate now ul ack).1 hSamples
  rcases Prod.mk.inj hBoth with ⟨hRtt, hDev⟩
  rw [hRtt, hDev]
  rfl

/- The DATA packets that sample, as steps. -/
theorem recordLength_estimate_step
    {dl : Download}
    (hStarted : dl.started = true)
    (hUpdates : dl.blockUpdate = false)
    (hRecorded : dl.ts ≠ 0)
    (now : Word)
    (pkt : Packet) :
    Estimate.mk (recordLength now dl pkt).rtt
        (recordLength now dl pkt).dev =
      Estimate.step ⟨dl.rtt, dl.dev⟩
        ⟨now, dl.ts, hRecorded⟩ := by
  simp only [recordLength, hStarted, hUpdates, Bool.not_false,
    Bool.and_self, if_true]
  rfl

end BtPeer

------------------------------------------------------------
-- One Sample
------------------------------------------------------------

namespace BtPeer

namespace Estimate

open TruncatedAverage

theorem step_first
    {est : Estimate}
    (hFirst : est.rtt = 0)
    (e : RttSample) :
    (est.step e).rtt = e.sRtt := by
  simp only [step, updateRtt, if_neg e.recorded,
    if_pos hFirst, RttSample.sRtt]

/- After the first sample the estimate is an average. -/
theorem step_rtt
    {est : Estimate}
    (hLater : est.rtt ≠ 0)
    (hExact : est.Exact)
    (e : RttSample) :
    (est.step e).rtt.toNat =
      average 8 est.rtt.toNat e.sRtt.toNat := by
  have hStep :
      (est.step e).rtt = est.rtt * 7 / 8 + e.sRtt / 8 := by
    simp only [step, updateRtt, if_neg e.recorded,
      if_neg hLater, RttSample.sRtt]
  have hProduct : (est.rtt * 7).toNat = est.rtt.toNat * 7 := by
    rw [BitVec.toNat_mul]
    exact Nat.mod_eq_of_lt hExact.rtt
  have hOld := hExact.rtt
  have hNew := e.sRtt.isLt
  rw [hStep, BitVec.toNat_add, BitVec.toNat_udiv,
    BitVec.toNat_udiv, hProduct]
  refine (Nat.mod_eq_of_lt ?_).trans ?_
  · change est.rtt.toNat * 7 / 8 + e.sRtt.toNat / 8 < 2 ^ 32
    omega
  · rfl

/-
  An estimate within the bounds stays there exactly when the
  average does not truncate to zero.
-/
theorem step_within_iff
    {m : Word}
    {est : Estimate}
    {e : RttSample}
    (hWithin : est.Within m)
    (hExact : est.Exact)
    (hSample : e.sRtt ≤ m) :
    (est.step e).Within m ↔
      ¬ (est.rtt = 1 ∧ e.sRtt < 8) := by
  have hPos : 0 < est.rtt.toNat := hWithin.low
  have hLater : est.rtt ≠ 0 := by
    rintro hZero
    rw [hZero] at hPos
    exact absurd hPos (by decide)
  have hStep := step_rtt hLater hExact e
  have hOne : est.rtt = 1 ↔ est.rtt.toNat = 1 := by
    rw [← BitVec.toNat_inj]
    rfl
  have hSmall : e.sRtt < 8 ↔ e.sRtt.toNat < 8 := Iff.rfl
  have hKept :=
    average_pos_iff (s := e.sRtt.toNat)
      (by omega : 2 ≤ 8) hPos
  have hHigh : (est.step e).rtt ≤ m := by
    change (est.step e).rtt.toNat ≤ m.toNat
    rw [hStep]
    exact average_le hWithin.high hSample
  rw [hOne, hSmall, ← hKept, ← hStep]
  constructor
  · intro hNext
    exact hNext.low
  · intro hNext
    exact ⟨hNext, hHigh⟩

/- The products fit exactly when the factors leave room. -/
theorem exact_iff
    (est : Estimate) :
    est.Exact ↔
      est.rtt ≤ 613566756 ∧ est.dev ≤ 1431655765 := by
  have hRtt :
      est.rtt ≤ 613566756 ↔ est.rtt.toNat ≤ 613566756 :=
    Iff.rfl
  have hDev :
      est.dev ≤ 1431655765 ↔ est.dev.toNat ≤ 1431655765 :=
    Iff.rfl
  rw [hRtt, hDev]
  constructor
  · rintro ⟨hOne, hTwo⟩
    omega
  · rintro ⟨hOne, hTwo⟩
    constructor <;> omega

theorem steady_iff
    (est : Estimate)
    (e : RttSample) :
    est.Steady e ↔
      ¬ (est.rtt = 1 ∧ e.sRtt < 8) ∧ est.Exact := by
  rw [exact_iff]
  constructor
  · rintro ⟨hKept, hRtt, hDev⟩
    exact ⟨hKept, hRtt, hDev⟩
  · rintro ⟨hKept, hRtt, hDev⟩
    exact ⟨hKept, hRtt, hDev⟩

/- The new deviation is below what the values are below. -/
theorem step_dev_le
    {m : Word}
    {est : Estimate}
    {e : RttSample}
    (hExact : est.Exact)
    (hDev : est.dev ≤ m)
    (hRtt : (est.step e).rtt ≤ m)
    (hSample : e.sRtt ≤ m) :
    (est.step e).dev ≤ m := by
  have hStep :
      (est.step e).dev =
        (let new := (est.step e).rtt
         let sDev :=
           if new < e.sRtt then e.sRtt - new
           else new - e.sRtt
         if est.dev = 0 then sDev
         else est.dev * 3 / 4 + sDev / 4) := by
    simp only [step, updateRtt, if_neg e.recorded,
      RttSample.sRtt]
  revert hStep hRtt
  generalize (est.step e).dev = dev'
  generalize (est.step e).rtt = rtt'
  intro hRtt hStep
  -- the sample deviation is a difference of two bounded values
  have hSpread :
      (if rtt' < e.sRtt then e.sRtt - rtt'
        else rtt' - e.sRtt).toNat ≤ m.toNat := by
    have hOne : rtt'.toNat ≤ m.toNat := hRtt
    have hTwo : e.sRtt.toNat ≤ m.toNat := hSample
    split <;> bv_omega
  change dev'.toNat ≤ m.toNat
  rw [hStep]
  dsimp only
  revert hSpread
  generalize (if rtt' < e.sRtt then e.sRtt - rtt'
    else rtt' - e.sRtt) = sDev
  intro hSpread
  split
  · exact hSpread
  · have hProduct :
        (est.dev * 3).toNat = est.dev.toNat * 3 := by
      rw [BitVec.toNat_mul]
      exact Nat.mod_eq_of_lt hExact.dev
    have hAverage :
        average 4 est.dev.toNat sDev.toNat ≤ m.toNat :=
      average_le hDev hSpread
    have hLimit := m.isLt
    rw [BitVec.toNat_add, BitVec.toNat_udiv,
      BitVec.toNat_udiv, hProduct]
    refine le_trans (le_of_eq (Nat.mod_eq_of_lt ?_)) hAverage
    exact lt_of_le_of_lt hAverage hLimit

end Estimate

end BtPeer

------------------------------------------------------------
-- Sequences Of Samples
------------------------------------------------------------

namespace BtPeer

open EventMachine

namespace Estimate

/-
  Between two samples in the bounds, with exact products, the
  estimate stays in the bounds exactly when no average
  truncates to zero.
-/
theorem within_iff_kept
    {m : Word}
    {est : Estimate}
    (hWithin : est.Within m)
    {es : List RttSample}
    (hSamples : ∀ e ∈ es, 1 ≤ e.sRtt ∧ e.sRtt ≤ m)
    (hExact : Along step (fun est _ => est.Exact) est es) :
    (∀ fs, fs <+: es → (run step est fs).Within m) ↔
      Along step
        (fun est e => ¬ (est.rtt = 1 ∧ e.sRtt < 8)) est es :=
  throughout_iff_along (Within m)
    (fun _ _ hIn hOk => step_within_iff hIn hOk.1 hOk.2.2)
    hWithin
    (along_and hExact (along_of_forall est hSamples))

/- The first sample puts the estimate within the bounds. -/
theorem step_first_within
    {m : Word}
    {est : Estimate}
    (hFirst : est.rtt = 0)
    {e : RttSample}
    (hSample : 1 ≤ e.sRtt ∧ e.sRtt ≤ m) :
    (est.step e).Within m := by
  have hRtt := step_first hFirst e
  constructor
  · rw [hRtt]
    exact hSample.1
  · rw [hRtt]
    exact hSample.2

end Estimate

/-
  From no estimate, with samples between 1 and `m`, the
  estimate is between 1 and `m` after every sample and no
  product overflows exactly when every sample is steady.
-/
theorem estimate_within_iff
    (m : Word)
    {est : Estimate}
    (hStart : est.rtt = 0)
    {es : List RttSample}
    (hSamples : ∀ e ∈ es, 1 ≤ e.sRtt ∧ e.sRtt ≤ m) :
    ((∀ fs, fs <+: es → fs ≠ [] →
          (run Estimate.step est fs).Within m) ∧
        Along Estimate.step (fun est _ => est.Exact) est es) ↔
      Along Estimate.step Estimate.Steady est es := by
  cases es with
  | nil =>
      constructor
      · intro _
        trivial
      · intro _
        refine ⟨?_, trivial⟩
        intro fs hPrefix hNonempty
        exact absurd (List.prefix_nil.mp hPrefix) hNonempty
  | cons e es =>
      have hFirst :=
        Estimate.step_first_within hStart
          (hSamples e List.mem_cons_self)
      have hRest :
          ∀ f ∈ es, 1 ≤ f.sRtt ∧ f.sRtt ≤ m :=
        fun f hMem => hSamples f (List.mem_cons_of_mem e hMem)
      -- the first average is the sample itself
      have hStartKept : ¬ (est.rtt = 1 ∧ e.sRtt < 8) := by
        rw [hStart]
        rintro ⟨hOne, _⟩
        exact absurd hOne (by decide)
      have hTail :
          (∀ fs, fs <+: e :: es → fs ≠ [] →
              (run Estimate.step est fs).Within m) ↔
            ∀ fs, fs <+: es →
              (run Estimate.step (est.step e) fs).Within m := by
        constructor
        · intro hAll fs hPrefix
          exact hAll (e :: fs)
            ((List.prefix_cons_inj e).mpr hPrefix)
            (List.cons_ne_nil e fs)
        · intro hAll fs hPrefix hNonempty
          cases fs with
          | nil => exact absurd rfl hNonempty
          | cons f fs =>
              rcases List.cons_prefix_cons.mp hPrefix with
                ⟨rfl, hSub⟩
              exact hAll fs hSub
      rw [hTail]
      constructor
      · rintro ⟨hWithin, hExact, hExacts⟩
        have hKept :=
          (Estimate.within_iff_kept hFirst hRest hExacts).mp
            hWithin
        refine ⟨?_, ?_⟩
        · exact (Estimate.steady_iff est e).mpr
            ⟨hStartKept, hExact⟩
        · exact (along_and hKept hExacts).mono
            (fun est' f hBoth =>
              (Estimate.steady_iff est' f).mpr hBoth)
      · rintro ⟨hSteady, hSteadies⟩
        have hBoth := hSteadies.mono
          (fun est' f => (Estimate.steady_iff est' f).mp)
        have hKept := hBoth.mono (fun _ _ hOk => hOk.1)
        have hExacts := hBoth.mono (fun _ _ hOk => hOk.2)
        refine ⟨?_, ?_, hExacts⟩
        · exact (Estimate.within_iff_kept hFirst hRest
            hExacts).mpr hKept
        · exact ((Estimate.steady_iff est e).mp hSteady).2

/- Samples of 100 and 80 milliseconds. -/
theorem estimate_within_two_samples :
    (run Estimate.step ⟨0, 0⟩
      [RttSample.mk 101 1 (by decide),
        .mk 281 201 (by decide)]).Within 100 := by
  have hSteady :
      Along Estimate.step Estimate.Steady ⟨0, 0⟩
        [RttSample.mk 101 1 (by decide),
          .mk 281 201 (by decide)] :=
    ⟨⟨by decide, by decide, by decide⟩,
      ⟨by decide, by decide, by decide⟩, trivial⟩
  have hSound :=
    (estimate_within_iff 100 rfl (by decide)).mpr hSteady
  exact hSound.1 _ List.prefix_rfl (List.cons_ne_nil _ _)

/- Two samples of one millisecond: the estimate is 0 again. -/
theorem estimate_truncates :
    ¬ ∀ (m : Word) (est : Estimate) (es : List RttSample),
        est.rtt = 0 →
        (∀ e ∈ es, 1 ≤ e.sRtt ∧ e.sRtt ≤ m) →
          (∀ fs, fs <+: es → fs ≠ [] →
              (run Estimate.step est fs).Within m) ∧
            Along Estimate.step (fun est _ => est.Exact)
              est es := by
  intro hAll
  have hSound :=
    hAll 1 ⟨0, 0⟩
      [RttSample.mk 2 1 (by decide), .mk 3 2 (by decide)]
      rfl (by decide)
  have hLow := (hSound.1 _ List.prefix_rfl (by decide)).low
  revert hLow
  decide

end BtPeer

------------------------------------------------------------
-- Samples Of Moderate Size
------------------------------------------------------------

namespace BtPeer

open EventMachine
open TruncatedAverage

namespace Estimate

/- Both values leave room for their factors. -/
structure Moderate
    (est : Estimate) : Prop where
  rtt : est.rtt ≤ 613566756
  dev : est.dev ≤ 613566756

theorem Moderate.exact
    {est : Estimate}
    (hModerate : est.Moderate) :
    est.Exact := by
  have hRoom : (613566756 : Word) ≤ 1431655765 := by decide
  exact (exact_iff est).mpr
    ⟨hModerate.rtt, BitVec.le_trans hModerate.dev hRoom⟩

theorem Moderate.step
    {est : Estimate}
    (hModerate : est.Moderate)
    {e : RttSample}
    (hSample : e.sRtt ≤ 613566756) :
    (est.step e).Moderate := by
  have hRtt : (est.step e).rtt ≤ 613566756 := by
    by_cases hFirst : est.rtt = 0
    · rw [step_first hFirst e]
      exact hSample
    · have hStep := step_rtt hFirst hModerate.exact e
      change (est.step e).rtt.toNat ≤ 613566756
      rw [hStep]
      exact average_le hModerate.rtt hSample
  exact ⟨hRtt,
    step_dev_le hModerate.exact hModerate.dev hRtt hSample⟩

/-
  Samples between 8 and 613566756 are all steady, however
  many there are.
-/
theorem steady_of_samples
    {est : Estimate}
    (hModerate : est.Moderate)
    {es : List RttSample}
    (hSamples :
      ∀ e ∈ es, 8 ≤ e.sRtt ∧ e.sRtt ≤ 613566756) :
    Along Estimate.step Steady est es :=
  (along_of_forall est hSamples).of_invariant Moderate
    (fun _ _ hIn hSample => hIn.step hSample.2)
    (fun est' _ hIn hSample =>
      (steady_iff est' _).mpr
        ⟨fun hSmall =>
          absurd hSmall.2 (BitVec.not_lt.mpr hSample.1),
          hIn.exact⟩)
    hModerate

end Estimate

end BtPeer
