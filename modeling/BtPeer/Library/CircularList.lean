import Mathlib.Data.List.Chain
import Mathlib.Data.List.Nodup
import Mathlib.Logic.Function.Basic

/-
  Doubly linked circular lists with a sentinel.

  The links are two partial functions on pointers, the
  sentinel is one pointer, and the list that stands for the
  ring names the members in order.

  Key definitions include:
    * `Linked`
    * `Ring`
    * `walk`

  Key theorems include:
    * `Ring.congr`
    * `Ring.insertLast`
    * `Ring.remove`
    * `Ring.reverse`
    * `Ring.walk_eq`
-/

------------------------------------------------------------
-- Rings
------------------------------------------------------------

namespace CircularList

variable {P : Type*}
variable {next prev next' prev' : P → Option P}

/- The two pointers point to each other. -/
structure Linked
    (next prev : P → Option P)
    (a b : P) : Prop where
  forward : next a = some b
  backward : prev b = some a

/-
  From the sentinel over the members back to the sentinel,
  every two neighbours are linked, and no member stands
  twice or is the sentinel.
-/
structure Ring
    (next prev : P → Option P)
    (head : P)
    (members : List P) : Prop where
  nodup : (head :: members).Nodup
  chain :
    (head :: (members ++ [head])).IsChain (Linked next prev)

/- Neighbours stay linked where their links are the same. -/
theorem isChain_congr
    {l : List P}
    (hChain : l.IsChain (Linked next prev))
    (hNext : ∀ a ∈ l.dropLast, next' a = next a)
    (hPrev : ∀ b ∈ l.tail, prev' b = prev b) :
    l.IsChain (Linked next' prev') := by
  induction l with
  | nil => exact List.IsChain.nil
  | cons a l ih =>
      cases l with
      | nil => exact List.IsChain.singleton a
      | cons b l =>
          rw [List.isChain_cons_cons] at hChain ⊢
          rcases hChain with ⟨hLinked, hRest⟩
          rw [List.dropLast_cons_cons] at hNext
          refine ⟨⟨?_, ?_⟩, ih hRest ?_ ?_⟩
          · rw [hNext a List.mem_cons_self]
            exact hLinked.forward
          · rw [hPrev b List.mem_cons_self]
            exact hLinked.backward
          · intro c hc
            exact hNext c (List.mem_cons_of_mem a hc)
          · intro c hc
            exact hPrev c (List.mem_cons_of_mem b hc)

/- A chain does not read the links of other pointers. -/
theorem isChain_update
    [DecidableEq P]
    {l : List P}
    {a b : P}
    (hChain : l.IsChain (Linked next prev))
    (hNext : a ∉ l.dropLast)
    (hPrev : b ∉ l.tail)
    (x y : Option P) :
    l.IsChain
      (Linked (Function.update next a x)
        (Function.update prev b y)) := by
  refine isChain_congr hChain ?_ ?_
  · intro c hc
    refine Function.update_of_ne ?_ _ _
    rintro rfl
    exact hNext hc
  · intro c hc
    refine Function.update_of_ne ?_ _ _
    rintro rfl
    exact hPrev hc

/- Taking out a pointer that stands once. -/
theorem erase_split
    [DecidableEq P]
    {p : P}
    {before behind : List P}
    (hNodup : (before ++ p :: behind).Nodup) :
    (before ++ p :: behind).erase p = before ++ behind := by
  have hNotBefore : p ∉ before := by
    intro hMem
    rw [List.nodup_append] at hNodup
    exact hNodup.2.2 p hMem p List.mem_cons_self rfl
  rw [List.erase_append_right _ hNotBefore,
    List.erase_cons_head]

namespace Ring

variable {head : P}
variable {members : List P}

/- A sentinel that points to itself is the empty ring. -/
theorem empty
    (hNext : next head = some head)
    (hPrev : prev head = some head) :
    Ring next prev head [] where
  nodup := List.nodup_singleton head
  chain := List.isChain_pair.mpr ⟨hNext, hPrev⟩

/- A ring reads only the links of its own pointers. -/
theorem congr
    (hRing : Ring next prev head members)
    (hNext : ∀ a ∈ head :: members, next' a = next a)
    (hPrev : ∀ a ∈ head :: members, prev' a = prev a) :
    Ring next' prev' head members where
  nodup := hRing.nodup
  chain := by
    refine isChain_congr hRing.chain ?_ ?_
    · intro a ha
      rw [← List.cons_append, List.dropLast_concat] at ha
      exact hNext a ha
    · intro a ha
      rw [List.tail_cons, List.mem_append,
        List.mem_singleton] at ha
      rcases ha with hMember | rfl
      · exact hPrev a (List.mem_cons_of_mem head hMember)
      · exact hPrev a List.mem_cons_self

/- Read backwards, the members stand in reverse. -/
theorem reverse
    (hRing : Ring next prev head members) :
    Ring prev next head members.reverse where
  nodup := by
    rw [List.nodup_cons, List.mem_reverse,
      List.nodup_reverse, ← List.nodup_cons]
    exact hRing.nodup
  chain := by
    have hList :
        head :: (members.reverse ++ [head]) =
          (head :: (members ++ [head])).reverse := by
      simp
    rw [hList, List.isChain_reverse]
    exact hRing.chain.imp
      (fun a b hLinked =>
        ⟨hLinked.backward, hLinked.forward⟩)

/- The last pointer is what stands before the sentinel. -/
theorem exists_last
    (hRing : Ring next prev head members) :
    ∃ front last,
      head :: members = front ++ [last] ∧
        prev head = some last := by
  rcases List.eq_nil_or_concat' (head :: members) with
    hNil | ⟨front, last, hLast⟩
  · cases hNil
  · refine ⟨front, last, hLast, ?_⟩
    have hChain := hRing.chain
    rw [← List.cons_append, hLast, List.append_assoc,
      List.singleton_append] at hChain
    exact (List.isChain_append_cons_cons.mp hChain).2.1.backward

/- The link of a pointer leads to the one behind it. -/
theorem next_eq
    (hRing : Ring next prev head members)
    {p : P}
    {before behind : List P}
    (hSplit : head :: members = before ++ p :: behind) :
    next p = (behind ++ [head]).head? := by
  rcases List.exists_cons_of_ne_nil
      (show behind ++ [head] ≠ [] by simp) with
    ⟨q, back, hBehind⟩
  have hChain := hRing.chain
  rw [← List.cons_append, hSplit, List.append_assoc,
    List.cons_append, hBehind,
    List.isChain_append_cons_cons] at hChain
  rw [hBehind, List.head?_cons]
  exact hChain.2.1.forward

/- The link of the sentinel leads to the first pointer. -/
theorem next_head
    (hRing : Ring next prev head members) :
    next head = (members ++ [head]).head? :=
  hRing.next_eq (List.nil_append (head :: members)).symm

/- Every pointer of the ring has a successor. -/
theorem exists_next
    (hRing : Ring next prev head members)
    {p : P}
    (hp : p ∈ head :: members) :
    ∃ q, next p = some q := by
  rcases List.append_of_mem hp with ⟨before, behind, hSplit⟩
  rw [hRing.next_eq hSplit]
  exact
    ⟨(behind ++ [head]).head (by simp),
      List.head?_eq_some_head (by simp)⟩

variable [DecidableEq P]

/-
  Four writes put a new pointer between the last one and
  the sentinel.
-/
theorem insertLast
    {last p : P}
    (hRing : Ring next prev head members)
    (hNew : p ∉ head :: members)
    (hLast : prev head = some last) :
    Ring
      (Function.update
        (Function.update next last (some p)) p (some head))
      (Function.update
        (Function.update prev p (some last)) head (some p))
      head (members ++ [p]) := by
  rcases hRing.exists_last with ⟨front, last', hSplit, hPrev⟩
  rw [hLast, Option.some.injEq] at hPrev
  subst hPrev
  have hNodup := hRing.nodup
  have hNeHead : p ≠ head := by
    rintro rfl
    exact hNew List.mem_cons_self
  have hNeLast : last ≠ p := by
    rintro rfl
    rw [hSplit] at hNew
    exact hNew (by simp)
  constructor
  · rw [← List.cons_append, List.nodup_append]
    refine ⟨hNodup, List.nodup_singleton p, ?_⟩
    rintro a ha b hb rfl
    rw [List.mem_singleton] at hb
    subst hb
    exact hNew ha
  · have hChain := hRing.chain
    rw [← List.cons_append] at hChain
    rw [List.append_assoc, List.singleton_append,
      ← List.cons_append, hSplit, List.append_assoc,
      List.singleton_append, List.isChain_append_cons_cons,
      List.isChain_pair, ← hSplit]
    refine ⟨?_, ⟨?_, ?_⟩, ⟨?_, ?_⟩⟩
    · have hFirst : last ∉ (head :: members).dropLast := by
        rw [hSplit, List.nodup_append] at hNodup
        rw [hSplit, List.dropLast_concat]
        intro hMem
        exact hNodup.2.2 last hMem last (by simp) rfl
      refine
        isChain_update
          (isChain_update hChain.left_of_append hFirst ?_ _ _)
          ?_ ?_ _ _
      · intro hMem
        exact hNew (List.mem_cons_of_mem head hMem)
      · intro hMem
        exact hNew (List.dropLast_subset _ hMem)
      · exact (List.nodup_cons.mp hNodup).1
    · rw [Function.update_of_ne hNeLast, Function.update_self]
    · rw [Function.update_of_ne hNeHead, Function.update_self]
    · exact Function.update_self p _ _
    · exact Function.update_self head _ _

/-
  Two writes take a member out; both its neighbours are
  pointers of the ring that is left.
-/
theorem remove
    {p : P}
    {before behind : List P}
    (hRing :
      Ring next prev head (before ++ p :: behind)) :
    ∃ a b,
      prev p = some a ∧ next p = some b ∧
        a ∈ head :: (before ++ behind) ∧
        b ∈ head :: (before ++ behind) ∧
        Ring
          (Function.update next a (some b))
          (Function.update prev b (some a))
          head (before ++ behind) := by
  rcases List.eq_nil_or_concat' (head :: before) with
    hNil | ⟨front, a, hBefore⟩
  · cases hNil
  rcases List.exists_cons_of_ne_nil
      (show behind ++ [head] ≠ [] by simp) with
    ⟨b, back, hBehind⟩
  have hChain := hRing.chain
  have hNodup := hRing.nodup
  rw [List.append_assoc, List.cons_append, hBehind,
    ← List.cons_append, hBefore, List.append_assoc,
    List.singleton_append, List.isChain_append_cons_cons,
    List.isChain_cons_cons] at hChain
  rcases hChain with ⟨hFront, hLeft, hRight, hBack⟩
  rw [← List.cons_append, List.nodup_append] at hNodup
  rcases hNodup with ⟨hNodupFront, hNodupBack, hApart⟩
  have hNodupBehind := (List.nodup_cons.mp hNodupBack).2
  have hMemA : a ∈ head :: before := by
    rw [hBefore]
    simp
  have hMemB : b ∈ behind ++ [head] := by
    rw [hBehind]
    exact List.mem_cons_self
  have hNotBehind : a ∉ behind := by
    intro hMem
    exact hApart a hMemA a (List.mem_cons_of_mem p hMem) rfl
  have hNotBefore : b ∉ before := by
    intro hMem
    rw [List.mem_append, List.mem_singleton] at hMemB
    rcases hMemB with hBehindMem | rfl
    · exact hApart b (List.mem_cons_of_mem head hMem) b
        (List.mem_cons_of_mem p hBehindMem) rfl
    · exact (List.nodup_cons.mp hNodupFront).1 hMem
  have hNodupEnd : (b :: back).Nodup := by
    rw [← hBehind, List.nodup_append]
    refine ⟨hNodupBehind, List.nodup_singleton head, ?_⟩
    rintro c hc d hd rfl
    rw [List.mem_singleton] at hd
    subst hd
    exact hApart c List.mem_cons_self c
      (List.mem_cons_of_mem p hc) rfl
  refine
    ⟨a, b, hLeft.backward, hRight.forward, ?_, ?_, ?_, ?_⟩
  · rw [← List.cons_append]
    exact List.mem_append_left behind hMemA
  · rw [List.mem_append, List.mem_singleton] at hMemB
    rcases hMemB with hMem | rfl
    · exact List.mem_cons_of_mem head
        (List.mem_append_right before hMem)
    · exact List.mem_cons_self
  · rw [← List.cons_append, List.nodup_append]
    refine ⟨hNodupFront, hNodupBehind, ?_⟩
    intro c hc d hd
    exact hApart c hc d (List.mem_cons_of_mem p hd)
  · rw [List.append_assoc, hBehind, ← List.cons_append,
      hBefore, List.append_assoc, List.singleton_append,
      List.isChain_append_cons_cons]
    refine ⟨?_, ⟨?_, ?_⟩, ?_⟩
    · refine isChain_update hFront ?_ ?_ _ _
      · rw [hBefore, List.nodup_append] at hNodupFront
        rw [List.dropLast_concat]
        intro hMem
        exact hNodupFront.2.2 a hMem a (by simp) rfl
      · rw [← hBefore]
        exact hNotBefore
    · exact Function.update_self a _ _
    · exact Function.update_self b _ _
    · refine isChain_update hBack ?_ ?_ _ _
      · rw [← hBehind, List.dropLast_concat]
        exact hNotBehind
      · exact (List.nodup_cons.mp hNodupEnd).1

end Ring

end CircularList

------------------------------------------------------------
-- Walks
------------------------------------------------------------

namespace CircularList

variable {P : Type*} [DecidableEq P]
variable {next prev : P → Option P}

/-
  The pointers from `p` on until the sentinel is reached, in
  at most `n` steps.
-/
def walk
    (next : P → Option P)
    (head : P) :
    Nat → P → Option (List P)
| 0, p => if p = head then some [] else none
| n + 1, p =>
    if p = head then some []
    else
      match next p with
      | none => none
      | some q => (walk next head n q).map (p :: ·)

theorem walk_chain
    {head : P}
    {n : Nat}
    {members : List P}
    {p : P}
    (hChain :
      (p :: (members ++ [head])).IsChain (Linked next prev))
    (hHead : head ∉ members)
    (hFuel : members.length ≤ n) :
    (next p).bind (walk next head n) = some members := by
  induction members generalizing n p with
  | nil =>
      rw [List.nil_append, List.isChain_pair] at hChain
      rw [hChain.forward, Option.bind_some]
      cases n <;> simp [walk]
  | cons q members ih =>
      rw [List.cons_append, List.isChain_cons_cons] at hChain
      rcases hChain with ⟨hLinked, hRest⟩
      rw [List.mem_cons, not_or] at hHead
      rcases hHead with ⟨hNotHead, hMembers⟩
      rw [hLinked.forward, Option.bind_some]
      cases n with
      | zero => exact absurd hFuel (Nat.not_succ_le_zero _)
      | succ n =>
          have hWalk :=
            ih hRest hMembers (Nat.le_of_succ_le_succ hFuel)
          rw [walk, if_neg (Ne.symm hNotHead)]
          cases hNext : next q with
          | none => simp [hNext] at hWalk
          | some r =>
              rw [hNext, Option.bind_some] at hWalk
              simp only [hWalk, Option.map_some]

/- From the sentinel the walk visits the members in order. -/
theorem Ring.walk_eq
    {head : P}
    {members : List P}
    {n : Nat}
    (hRing : Ring next prev head members)
    (hFuel : members.length ≤ n) :
    (next head).bind (walk next head n) = some members :=
  walk_chain hRing.chain
    (List.nodup_cons.mp hRing.nodup).1 hFuel

end CircularList
