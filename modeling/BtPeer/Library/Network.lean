import BtPeer.Library.Run
import Mathlib.Logic.Function.Basic

/-
  Networks of event machines.

  Every node keeps a log of what it has sent. The network may
  lose, duplicate, delay and reorder messages, and it may
  deliver an old one at any time: an event that delivers a
  message is allowed whenever some node has it in its log.

  Key definitions include:
    * `NodeNetwork.System`
    * `NodeNetwork.System.next`
    * `NodeNetwork.System.Allowed`

  The rules are:
    * `NodeNetwork.System.run_node`
    * `NodeNetwork.System.sent_run`
    * `NodeNetwork.System.delivered_of_along`
    * `NodeNetwork.System.run_relies`
-/

------------------------------------------------------------
-- Systems Of Nodes
------------------------------------------------------------

namespace NodeNetwork

open EventMachine

/-
  What an event does at a node, what the node has sent, which
  events hand message `m` of node `j` to node `i`, and which
  events need no message.
-/
structure System (ι σ ε μ : Type*) where
  step : ι → σ → ε → σ
  sent : σ → List μ
  delivers : (j i : ι) → (m : μ) → ε → Prop
  free : ι → ε → Prop

namespace System

variable {ι σ ε μ : Type*}
variable (N : System ι σ ε μ)

/- One event at one node. -/
def next
    [DecidableEq ι]
    (s : ι → σ)
    (x : ι × ε) : ι → σ :=
  Function.update s x.1 (N.step x.1 (s x.1) x.2)

/- The event delivers nothing, or something that was sent. -/
def Allowed
    (s : ι → σ)
    (x : ι × ε) : Prop :=
  N.free x.1 x.2 ∨
    ∃ j m, m ∈ N.sent (s j) ∧ N.delivers j x.1 m x.2

/- No event takes a message out of a log. -/
def KeepsLogs : Prop :=
  ∀ i s e m, m ∈ N.sent s → m ∈ N.sent (N.step i s e)

/-
  `inv i M s` holds of node `i` in state `s` when the nodes
  have sent the messages `M`: it survives more messages, and
  every event that the messages allow.
-/
structure Relies
    (inv : ι → (ι → μ → Prop) → σ → Prop) : Prop where
  mono :
    ∀ i M M' s,
      (∀ j m, M j m → M' j m) → inv i M s → inv i M' s
  step :
    ∀ i M s e,
      inv i M s →
      (N.free i e ∨ ∃ j m, M j m ∧ N.delivers j i m e) →
        inv i M (N.step i s e)

variable {N}

end System

end NodeNetwork

------------------------------------------------------------
-- Runs Of A Network
------------------------------------------------------------

namespace NodeNetwork

open EventMachine

namespace System

variable {ι σ ε μ : Type*}
variable [DecidableEq ι]
variable {N : System ι σ ε μ}

/- Seen from one node, a run consists of its own events. -/
theorem run_node
    (s : ι → σ)
    (xs : List (ι × ε))
    (i : ι) :
    run N.next s xs i =
      run (N.step i) (s i)
        ((xs.filter (fun x => x.1 = i)).map Prod.snd) := by
  induction xs generalizing s with
  | nil => rfl
  | cons x xs ih =>
      rw [run_cons, ih]
      by_cases hHere : x.1 = i
      · subst hHere
        simp [next]
      · have hOther : i ≠ x.1 := fun h => hHere h.symm
        simp [next, hHere, Function.update_of_ne hOther]

/- A message stays in the log of its node. -/
theorem sent_next
    (hLogs : N.KeepsLogs)
    {s : ι → σ}
    (x : ι × ε)
    {j : ι}
    {m : μ}
    (hMem : m ∈ N.sent (s j)) :
    m ∈ N.sent (N.next s x j) := by
  by_cases hj : j = x.1
  · subst hj
    simp only [next, Function.update_self]
    exact hLogs x.1 (s x.1) x.2 m hMem
  · simp only [next, Function.update_of_ne hj]
    exact hMem

theorem sent_run
    (hLogs : N.KeepsLogs)
    {s : ι → σ}
    (xs : List (ι × ε))
    {j : ι}
    {m : μ}
    (hMem : m ∈ N.sent (s j)) :
    m ∈ N.sent (run N.next s xs j) := by
  induction xs generalizing s with
  | nil => exact hMem
  | cons x xs ih =>
      rw [run_cons]
      exact ih (sent_next hLogs x hMem)

/- Every event of a run is free or delivers what was sent. -/
theorem delivered_of_along
    (hLogs : N.KeepsLogs)
    {s : ι → σ}
    {xs : List (ι × ε)}
    (hAllowed : Along N.next N.Allowed s xs)
    {x : ι × ε}
    (hMem : x ∈ xs) :
    N.Allowed (run N.next s xs) x := by
  induction xs generalizing s with
  | nil => cases hMem
  | cons y ys ih =>
      rcases List.mem_cons.mp hMem with rfl | hLater
      · rcases hAllowed.1 with hFree | ⟨j, m, hSent, hDelivers⟩
        · exact Or.inl hFree
        · exact Or.inr
            ⟨j, m, sent_run hLogs (x :: ys) hSent, hDelivers⟩
      · exact ih hAllowed.2 hLater

/-
  Each node may rely on what the others guarantee: an
  invariant that a node keeps as long as it is handed only
  messages from the logs holds everywhere, in every run.
-/
theorem run_relies
    {inv : ι → (ι → μ → Prop) → σ → Prop}
    (hRelies : N.Relies inv)
    (hLogs : N.KeepsLogs)
    {s : ι → σ}
    (hInit : ∀ i, inv i (fun j m => m ∈ N.sent (s j)) (s i))
    {xs : List (ι × ε)}
    (hAllowed : Along N.next N.Allowed s xs) :
    ∀ i,
      inv i
        (fun j m => m ∈ N.sent (run N.next s xs j))
        (run N.next s xs i) := by
  refine
    run_invariant_along
      (fun s : ι → σ =>
        ∀ i, inv i (fun j m => m ∈ N.sent (s j)) (s i))
      ?_ hInit hAllowed
  rintro s ⟨k, e⟩ hAll hOk i
  -- the logs before the event are parts of those after it
  have hMore :
      ∀ j m,
        m ∈ N.sent (s j) →
          m ∈ N.sent (N.next s (k, e) j) :=
    fun _ _ hMem => sent_next hLogs (k, e) hMem
  have hOld := hRelies.mono i _ _ (s i) hMore (hAll i)
  by_cases hi : i = k
  · subst hi
    have hStep :
        N.free i e ∨
          ∃ j m,
            m ∈ N.sent (N.next s (i, e) j) ∧
              N.delivers j i m e := by
      rcases hOk with hFree | ⟨j, m, hMem, hDelivers⟩
      · exact Or.inl hFree
      · exact Or.inr ⟨j, m, hMore j m hMem, hDelivers⟩
    have hNew := hRelies.step i _ (s i) e hOld hStep
    have hState :
        N.next s (i, e) i = N.step i (s i) e := by
      simp [next]
    rw [hState]
    exact hNew
  · have hState : N.next s (k, e) i = s i := by
      simp [next, Function.update_of_ne hi]
    rw [hState]
    exact hOld

end System

end NodeNetwork
