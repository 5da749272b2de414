import Mathlib.Data.List.Basic

/-
  Deterministic event machines.

  A machine is a transition function `step : σ → ε → σ`;
  whatever the environment decides is part of the event. A
  run is the fold of `step` over a list of events, so "every
  reachable state" is "the state after every list of
  events".

  Key definitions include:
    * `EventMachine.run`
    * `EventMachine.Along`
    * `EventMachine.countAlong`

  The induction rules are:
    * `EventMachine.run_map`
    * `EventMachine.run_invariant`
    * `EventMachine.run_invariant_along`
    * `EventMachine.Along.of_invariant`
    * `EventMachine.along_congr_of_invariant`
    * `EventMachine.throughout_iff_along`
    * `EventMachine.exists_run_of_progress`
    * `EventMachine.goal_of_countAlong`
-/

------------------------------------------------------------
-- Runs
------------------------------------------------------------

namespace EventMachine

variable {σ ε : Type*}

/- The state reached from `s` after the events `es`. -/
def run
    (step : σ → ε → σ)
    (s : σ)
    (es : List ε) : σ :=
  es.foldl step s

@[simp] theorem run_nil
    (step : σ → ε → σ)
    (s : σ) :
    run step s [] = s := rfl

@[simp] theorem run_cons
    (step : σ → ε → σ)
    (s : σ)
    (e : ε)
    (es : List ε) :
    run step s (e :: es) = run step (step s e) es := rfl

theorem run_append
    (step : σ → ε → σ)
    (s : σ)
    (es fs : List ε) :
    run step s (es ++ fs) = run step (run step s es) fs := by
  simp [run]

theorem run_concat
    (step : σ → ε → σ)
    (s : σ)
    (es : List ε)
    (e : ε) :
    run step s (es ++ [e]) = step (run step s es) e := by
  simp [run]

/- A map that every step commutes with maps whole runs. -/
theorem run_map
    {σ' ε' : Type*}
    {step : σ → ε → σ}
    {step' : σ' → ε' → σ'}
    {state : σ → σ'}
    {event : ε → ε'}
    (hStep :
      ∀ s e, state (step s e) = step' (state s) (event e))
    (s : σ)
    (es : List ε) :
    state (run step s es) =
      run step' (state s) (es.map event) := by
  induction es generalizing s with
  | nil => rfl
  | cons e es ih =>
      rw [run_cons, ih, hStep, List.map_cons, run_cons]

/-
  Every event of the run meets `ok` in the state in which it
  is taken.
-/
def Along
    (step : σ → ε → σ)
    (ok : σ → ε → Prop) :
    σ → List ε → Prop
| _, [] => True
| s, e :: es => ok s e ∧ Along step ok (step s e) es

theorem along_append
    (step : σ → ε → σ)
    (ok : σ → ε → Prop)
    (s : σ)
    (es fs : List ε) :
    Along step ok s (es ++ fs) ↔
      Along step ok s es ∧ Along step ok (run step s es) fs := by
  induction es generalizing s with
  | nil => simp [Along]
  | cons e es ih =>
      simp only [List.cons_append, Along, run_cons,
        ih (step s e), and_assoc]

/- A condition on the events alone holds along every run. -/
theorem along_of_forall
    {step : σ → ε → σ}
    {ok : ε → Prop}
    (s : σ)
    {es : List ε}
    (hAll : ∀ e, e ∈ es → ok e) :
    Along step (fun _ e => ok e) s es := by
  induction es generalizing s with
  | nil => trivial
  | cons e es ih =>
      constructor
      · exact hAll e List.mem_cons_self
      · apply ih
        intro e' hMem
        exact hAll e' (List.mem_cons_of_mem e hMem)

/- Two conditions along the same run. -/
theorem along_and
    {step : σ → ε → σ}
    {ok ok' : σ → ε → Prop}
    {s : σ}
    {es : List ε}
    (hOk : Along step ok s es)
    (hOk' : Along step ok' s es) :
    Along step (fun s e => ok s e ∧ ok' s e) s es := by
  induction es generalizing s with
  | nil => trivial
  | cons e es ih =>
      exact ⟨⟨hOk.1, hOk'.1⟩, ih hOk.2 hOk'.2⟩

end EventMachine

------------------------------------------------------------
-- Invariant Rules
------------------------------------------------------------

namespace EventMachine

variable {σ ε : Type*}
variable {step : σ → ε → σ}

/-
  An invariant preserved by the events that meet `ok` holds
  after every run made of such events.
-/
theorem run_invariant_along
    (inv : σ → Prop)
    {ok : σ → ε → Prop}
    (hStep : ∀ s e, inv s → ok s e → inv (step s e))
    {s : σ}
    (hInit : inv s)
    {es : List ε}
    (hAlong : Along step ok s es) :
    inv (run step s es) := by
  induction es generalizing s with
  | nil => exact hInit
  | cons e es ih =>
      rcases hAlong with ⟨hOk, hRest⟩
      exact ih (hStep s e hInit hOk) hRest

/- An invariant preserved by every event holds on every run. -/
theorem run_invariant
    (inv : σ → Prop)
    (hStep : ∀ s e, inv s → inv (step s e))
    {s : σ}
    (hInit : inv s)
    (es : List ε) :
    inv (run step s es) := by
  induction es generalizing s with
  | nil => exact hInit
  | cons e es ih =>
      exact ih (hStep s e hInit)

/-
  A condition that the invariant turns into another one holds
  along the run with the other one.
-/
theorem Along.of_invariant
    (inv : σ → Prop)
    {ok ok' : σ → ε → Prop}
    (hStep : ∀ s e, inv s → ok s e → inv (step s e))
    (hImp : ∀ s e, inv s → ok s e → ok' s e)
    {s : σ}
    (hInit : inv s)
    {es : List ε}
    (hAlong : Along step ok s es) :
    Along step ok' s es := by
  induction es generalizing s with
  | nil => trivial
  | cons e es ih =>
      rcases hAlong with ⟨hOk, hRest⟩
      exact ⟨hImp s e hInit hOk,
        ih (hStep s e hInit hOk) hRest⟩

theorem Along.mono
    {ok ok' : σ → ε → Prop}
    (hImp : ∀ s e, ok s e → ok' s e)
    {s : σ}
    {es : List ε}
    (hAlong : Along step ok s es) :
    Along step ok' s es :=
  hAlong.of_invariant (fun _ => True)
    (fun _ _ _ _ => trivial) (fun s e _ => hImp s e) trivial

/- Two conditions that the invariant makes equivalent. -/
theorem along_congr_of_invariant
    (inv : σ → Prop)
    {ok P Q : σ → ε → Prop}
    (hStep : ∀ s e, inv s → ok s e → inv (step s e))
    (hIff : ∀ s e, inv s → (P s e ↔ Q s e))
    {s : σ}
    (hInit : inv s)
    {es : List ε}
    (hAlong : Along step ok s es) :
    Along step P s es ↔ Along step Q s es := by
  induction es generalizing s with
  | nil => exact Iff.rfl
  | cons e es ih =>
      rcases hAlong with ⟨hOk, hRest⟩
      exact and_congr (hIff s e hInit)
        (ih (hStep s e hInit hOk) hRest)

/-
  When each step keeps the invariant exactly under `cond`, the
  invariant holds throughout a run exactly when every step of
  the run meets `cond`.
-/
theorem throughout_iff_along
    (inv : σ → Prop)
    {ok cond : σ → ε → Prop}
    (hStep :
      ∀ s e, inv s → ok s e → (inv (step s e) ↔ cond s e))
    {s : σ}
    (hInit : inv s)
    {es : List ε}
    (hAlong : Along step ok s es) :
    (∀ fs, fs <+: es → inv (run step s fs)) ↔
      Along step cond s es := by
  induction es generalizing s with
  | nil =>
      constructor
      · intro _
        trivial
      · intro _ fs hPrefix
        rw [List.prefix_nil.mp hPrefix]
        exact hInit
  | cons e es ih =>
      rcases hAlong with ⟨hOk, hRest⟩
      have hFirst := hStep s e hInit hOk
      constructor
      · intro hAll
        have hNext : inv (step s e) :=
          hAll [e] (List.prefix_append [e] es)
        refine ⟨hFirst.mp hNext, (ih hNext hRest).mp ?_⟩
        intro fs hPrefix
        exact hAll (e :: fs)
          ((List.prefix_cons_inj e).mpr hPrefix)
      · rintro ⟨hCond, hConds⟩ fs hPrefix
        have hNext := hFirst.mpr hCond
        cases fs with
        | nil => exact hInit
        | cons f fs =>
            rcases List.cons_prefix_cons.mp hPrefix with
              ⟨rfl, hTail⟩
            exact (ih hNext hRest).mpr hConds fs hTail

end EventMachine

------------------------------------------------------------
-- Goals That Stay In Reach
------------------------------------------------------------

namespace EventMachine

variable {σ ε : Type*}
variable {step : σ → ε → σ}

/-
  A goal is reached when some path of at most `cost` events
  can always bring it closer.
-/
theorem exists_run_of_progress
    (inv goal : σ → Prop)
    {ok : σ → ε → Prop}
    (distance : σ → Nat)
    (cost : Nat)
    (hProgress :
      ∀ s, inv s → ¬ goal s →
        ∃ es, es.length ≤ cost ∧ Along step ok s es ∧
          inv (run step s es) ∧
            distance (run step s es) < distance s)
    {s : σ}
    (hInit : inv s) :
    ∃ es, es.length ≤ cost * distance s ∧
      Along step ok s es ∧ inv (run step s es) ∧
        goal (run step s es) := by
  generalize hFar : distance s = n
  induction n using Nat.strongRecOn generalizing s with
  | ind n ih =>
      by_cases hGoal : goal s
      · exact ⟨[], Nat.zero_le _, trivial, hInit, hGoal⟩
      · rcases hProgress s hInit hGoal with
          ⟨es, hLength, hAlong, hInv, hCloser⟩
        rcases ih _ (hFar ▸ hCloser) hInv rfl with
          ⟨fs, hLength', hAlong', hInv', hGoal'⟩
        refine ⟨es ++ fs, ?_, ?_, ?_, ?_⟩
        · have hSteps :
              cost + cost * distance (run step s es) ≤
                cost * n := by
            rw [Nat.add_comm, ← Nat.mul_succ]
            exact Nat.mul_le_mul_left cost (hFar ▸ hCloser)
          rw [List.length_append]
          omega
        · exact (along_append step ok s es fs).mpr
            ⟨hAlong, hAlong'⟩
        · rw [run_append]
          exact hInv'
        · rw [run_append]
          exact hGoal'

end EventMachine

------------------------------------------------------------
-- Goals That Are Forced
------------------------------------------------------------

namespace EventMachine

variable {σ ε : Type*}
variable {step : σ → ε → σ}

/- How many events of the run meet `P` when they are taken. -/
def countAlong
    (step : σ → ε → σ)
    (P : σ → ε → Prop)
    [∀ s e, Decidable (P s e)] :
    σ → List ε → Nat
| _, [] => 0
| s, e :: es =>
    (if P s e then 1 else 0) + countAlong step P (step s e) es

/-
  A goal is reached when it stays reached, and until then
  every event that meets `P` raises a bounded rank.
-/
theorem goal_of_countAlong
    (inv goal : σ → Prop)
    {ok P : σ → ε → Prop}
    [∀ s e, Decidable (P s e)]
    (rank : σ → Int)
    (bound : Int)
    (hStep :
      ∀ s e, inv s → ok s e →
        goal (step s e) ∨
          inv (step s e) ∧
            rank s + (if P s e then 1 else 0) ≤
              rank (step s e))
    (hStay : ∀ s e, goal s → ok s e → goal (step s e))
    (hBound : ∀ s, inv s → rank s ≤ bound)
    {s : σ}
    (hInit : inv s)
    {es : List ε}
    (hAlong : Along step ok s es)
    (hMany : bound < rank s + countAlong step P s es) :
    goal (run step s es) := by
  induction es generalizing s with
  | nil =>
      have hLow := hBound s hInit
      simp only [countAlong] at hMany
      omega
  | cons e es ih =>
      rcases hAlong with ⟨hOk, hRest⟩
      rcases hStep s e hInit hOk with hGoal | ⟨hInv, hRaised⟩
      · exact run_invariant_along goal hStay hGoal hRest
      · apply ih hInv hRest
        rw [countAlong] at hMany
        by_cases hP : P s e
        · rw [if_pos hP] at hRaised hMany
          omega
        · rw [if_neg hP] at hRaised hMany
          omega

end EventMachine
