import BtPeer.Basic
import BtPeer.Library.CircularList

/-
  The doubly linked list (linkedlist.c).

  The memory maps pointers to the nodes that are allocated;
  what reads or writes any other pointer has no result. The
  sentinel is a node of the memory, at the address
  `&ll->head`.

  Key definitions include:
    * `Linlist`
    * `llInsertLast`, `llRemove`, `llDeleteAllnodes`
    * `Represents`
    * `Reached`

  Key theorems include:
    * `Represents.insertLast`
    * `Represents.remove`
    * `Represents.delete`
    * `linkedlist_members`
-/

------------------------------------------------------------
-- Memory
------------------------------------------------------------

namespace BtPeer

/- `ll_Node` -/
structure LlNode (Ptr Item : Type) where
  next : Ptr
  prev : Ptr
  item : Item

/-
  A `Linlist` and the memory around it: `head` is the
  address of its sentinel. The last two fields record what
  was passed to `del_item` and to `free`.
-/
structure Linlist (Ptr Item : Type) where
  head : Ptr
  count : Int
  mem : Ptr → Option (LlNode Ptr Item)
  freedItems : List Item
  freedNodes : List Ptr

namespace Linlist

variable {Ptr Item : Type}

/- `node->next`, `node->prev` and `node->item`. -/
def next
    (ll : Linlist Ptr Item)
    (node : Ptr) : Option Ptr :=
  (ll.mem node).map LlNode.next

def prev
    (ll : Linlist Ptr Item)
    (node : Ptr) : Option Ptr :=
  (ll.mem node).map LlNode.prev

def item
    (ll : Linlist Ptr Item)
    (node : Ptr) : Option Item :=
  (ll.mem node).map LlNode.item

/- The node is in allocated memory. -/
def Allocated
    (ll : Linlist Ptr Item)
    (node : Ptr) : Prop :=
  ∃ cell, ll.mem node = some cell

theorem Allocated.of_next
    {ll : Linlist Ptr Item}
    {node q : Ptr}
    (hNext : ll.next node = some q) :
    ll.Allocated node := by
  rcases Option.map_eq_some_iff.mp hNext with ⟨cell, hCell, _⟩
  exact ⟨cell, hCell⟩

theorem Allocated.of_prev
    {ll : Linlist Ptr Item}
    {node q : Ptr}
    (hPrev : ll.prev node = some q) :
    ll.Allocated node := by
  rcases Option.map_eq_some_iff.mp hPrev with ⟨cell, hCell, _⟩
  exact ⟨cell, hCell⟩

/- A write to a link changes nothing but links. -/
structure SameItems (ll ll' : Linlist Ptr Item) : Prop where
  head : ll'.head = ll.head
  item : ll'.item = ll.item
  freedItems : ll'.freedItems = ll.freedItems
  freedNodes : ll'.freedNodes = ll.freedNodes

theorem SameItems.trans
    {ll₁ ll₂ ll₃ : Linlist Ptr Item}
    (hFirst : SameItems ll₁ ll₂)
    (hSecond : SameItems ll₂ ll₃) :
    SameItems ll₁ ll₃ where
  head := hSecond.head.trans hFirst.head
  item := hSecond.item.trans hFirst.item
  freedItems := hSecond.freedItems.trans hFirst.freedItems
  freedNodes := hSecond.freedNodes.trans hFirst.freedNodes

theorem SameItems.allocated
    {ll ll' : Linlist Ptr Item}
    {node : Ptr}
    (hSame : SameItems ll ll')
    (hNode : ll.Allocated node) :
    ll'.Allocated node := by
  rcases hNode with ⟨cell, hCell⟩
  have hItem : ll'.item node = some cell.item := by
    rw [hSame.item]
    simp [Linlist.item, hCell]
  rcases Option.map_eq_some_iff.mp hItem with ⟨cell', hCell', _⟩
  exact ⟨cell', hCell'⟩

variable [DecidableEq Ptr]

/- `node->next = q` -/
def setNext
    (ll : Linlist Ptr Item)
    (node q : Ptr) : Option (Linlist Ptr Item) :=
  (ll.mem node).map (fun cell =>
    { ll with
      mem :=
        Function.update ll.mem node
          (some { cell with next := q }) })

/- `node->prev = q` -/
def setPrev
    (ll : Linlist Ptr Item)
    (node q : Ptr) : Option (Linlist Ptr Item) :=
  (ll.mem node).map (fun cell =>
    { ll with
      mem :=
        Function.update ll.mem node
          (some { cell with prev := q }) })

theorem setNext_spec
    {ll : Linlist Ptr Item}
    {node : Ptr}
    (hNode : ll.Allocated node)
    (q : Ptr) :
    ∃ ll',
      ll.setNext node q = some ll' ∧
        SameItems ll ll' ∧
        ll'.count = ll.count ∧
        ll'.next = Function.update ll.next node (some q) ∧
        ll'.prev = ll.prev := by
  rcases hNode with ⟨cell, hCell⟩
  unfold setNext
  rw [hCell, Option.map_some]
  refine ⟨_, rfl, ⟨rfl, ?_, rfl, rfl⟩, rfl, ?_, ?_⟩
  all_goals
    funext p
    by_cases hp : p = node
    · subst hp
      simp [item, next, prev, hCell]
    · simp [item, next, prev, hp]

theorem setPrev_spec
    {ll : Linlist Ptr Item}
    {node : Ptr}
    (hNode : ll.Allocated node)
    (q : Ptr) :
    ∃ ll',
      ll.setPrev node q = some ll' ∧
        SameItems ll ll' ∧
        ll'.count = ll.count ∧
        ll'.next = ll.next ∧
        ll'.prev =
          Function.update ll.prev node (some q) := by
  rcases hNode with ⟨cell, hCell⟩
  unfold setPrev
  rw [hCell, Option.map_some]
  refine ⟨_, rfl, ⟨rfl, ?_, rfl, rfl⟩, rfl, ?_, ?_⟩
  all_goals
    funext p
    by_cases hp : p = node
    · subst hp
      simp [item, next, prev, hCell]
    · simp [item, next, prev, hp]

end Linlist

end BtPeer

------------------------------------------------------------
-- Operations
------------------------------------------------------------

namespace BtPeer

variable {Ptr Item : Type} [DecidableEq Ptr]

open Linlist

/- `init_linkedlist` -/
def initLinkedlist
    (ll : Linlist Ptr Item) : Option (Linlist Ptr Item) := do
  let ll ← ll.setNext ll.head ll.head
  let ll ← ll.setPrev ll.head ll.head
  some { ll with count := 0 }

/- `del_item(iter->item)` and `free(iter)` -/
def freeNode
    (ll : Linlist Ptr Item)
    (iter : Ptr)
    (item : Item) : Linlist Ptr Item :=
  { ll with
    mem := Function.update ll.mem iter none
    freedItems := ll.freedItems ++ [item]
    freedNodes := ll.freedNodes ++ [iter] }

/-
  The loop of `ll_delete_allnodes` for at most `n` nodes:
  the link is read before the node is freed.
-/
def deleteLoop :
    Nat → Ptr → Linlist Ptr Item →
      Option (Linlist Ptr Item)
| 0, iter, ll => if iter = ll.head then some ll else none
| n + 1, iter, ll =>
    if iter = ll.head then some ll
    else
      match ll.mem iter with
      | none => none
      | some node =>
          deleteLoop n node.next
            (freeNode ll iter node.item)

/- `ll_delete_allnodes` -/
def llDeleteAllnodes
    (n : Nat)
    (ll : Linlist Ptr Item) : Option (Linlist Ptr Item) := do
  let iter ← ll.next ll.head
  deleteLoop n iter ll

/- `ll_count` -/
def llCount (ll : Linlist Ptr Item) : Int :=
  ll.count

/- `ll_insert_last` -/
def llInsertLast
    (ll : Linlist Ptr Item)
    (node : Ptr) : Option (Linlist Ptr Item) := do
  let head := ll.head
  let last ← ll.prev head
  let ll ← ll.setNext last node
  let ll ← ll.setPrev node last
  let ll ← ll.setNext node head
  let ll ← ll.setPrev head node
  some { ll with count := toInt32 (ll.count + 1) }

/- `ll_remove` -/
def llRemove
    (ll : Linlist Ptr Item)
    (node : Ptr) : Option (Linlist Ptr Item) := do
  let prev ← ll.prev node
  let next ← ll.next node
  let ll ← ll.setPrev next prev
  let ll ← ll.setNext prev next
  some { ll with count := toInt32 (ll.count - 1) }

/- `ll_start`, `ll_next` and `ll_end` -/
def llStart (ll : Linlist Ptr Item) : Option Ptr :=
  ll.next ll.head

def llNext
    (ll : Linlist Ptr Item)
    (node : Ptr) : Option Ptr :=
  ll.next node

def llEnd (ll : Linlist Ptr Item) : Ptr :=
  ll.head

end BtPeer

------------------------------------------------------------
-- Writes of the Operations
------------------------------------------------------------

namespace BtPeer

variable {Ptr Item : Type} [DecidableEq Ptr]

open Linlist

theorem initLinkedlist_spec
    {ll : Linlist Ptr Item}
    (hHead : ll.Allocated ll.head) :
    ∃ ll',
      initLinkedlist ll = some ll' ∧
        SameItems ll ll' ∧
        ll'.count = 0 ∧
        ll'.next =
          Function.update ll.next ll.head (some ll.head) ∧
        ll'.prev =
          Function.update ll.prev ll.head (some ll.head) := by
  rcases setNext_spec hHead ll.head with
    ⟨ll₁, hSet₁, hSame₁, _, hNext₁, hPrev₁⟩
  rcases setPrev_spec (hSame₁.allocated hHead) ll.head with
    ⟨ll₂, hSet₂, hSame₂, _, hNext₂, hPrev₂⟩
  refine
    ⟨{ ll₂ with count := 0 }, ?_,
      ⟨hSame₂.head.trans hSame₁.head,
        hSame₂.item.trans hSame₁.item,
        hSame₂.freedItems.trans hSame₁.freedItems,
        hSame₂.freedNodes.trans hSame₁.freedNodes⟩,
      rfl, ?_, ?_⟩
  · simp only [initLinkedlist, hSet₁, Option.bind_eq_bind,
      Option.bind_some, hSame₁.head, hSet₂]
  · exact hNext₂.trans hNext₁
  · exact hPrev₂.trans (by rw [hPrev₁])

theorem llInsertLast_spec
    {ll : Linlist Ptr Item}
    {last node : Ptr}
    (hPrev : ll.prev ll.head = some last)
    (hLast : ll.Allocated last)
    (hNode : ll.Allocated node) :
    ∃ ll',
      llInsertLast ll node = some ll' ∧
        SameItems ll ll' ∧
        ll'.count = toInt32 (ll.count + 1) ∧
        ll'.next =
          Function.update
            (Function.update ll.next last (some node))
            node (some ll.head) ∧
        ll'.prev =
          Function.update
            (Function.update ll.prev node (some last))
            ll.head (some node) := by
  rcases setNext_spec hLast node with
    ⟨ll₁, hSet₁, hSame₁, hCount₁, hNext₁, hPrev₁⟩
  rcases setPrev_spec (hSame₁.allocated hNode) last with
    ⟨ll₂, hSet₂, hSame₂, hCount₂, hNext₂, hPrev₂⟩
  have hSame₁₂ := hSame₁.trans hSame₂
  rcases setNext_spec (hSame₁₂.allocated hNode) ll.head with
    ⟨ll₃, hSet₃, hSame₃, hCount₃, hNext₃, hPrev₃⟩
  have hSame₁₃ := hSame₁₂.trans hSame₃
  rcases setPrev_spec
      (hSame₁₃.allocated (Allocated.of_prev hPrev)) node with
    ⟨ll₄, hSet₄, hSame₄, hCount₄, hNext₄, hPrev₄⟩
  have hSame := hSame₁₃.trans hSame₄
  refine
    ⟨{ ll₄ with count := toInt32 (ll₄.count + 1) }, ?_,
      ⟨hSame.head, hSame.item, hSame.freedItems,
        hSame.freedNodes⟩, ?_, ?_, ?_⟩
  · simp only [llInsertLast, hPrev, hSet₁, hSet₂, hSet₃,
      hSet₄, Option.bind_eq_bind, Option.bind_some]
  · change toInt32 (ll₄.count + 1) = toInt32 (ll.count + 1)
    rw [hCount₄, hCount₃, hCount₂, hCount₁]
  · change ll₄.next = _
    rw [hNext₄, hNext₃, hNext₂, hNext₁]
  · change ll₄.prev = _
    rw [hPrev₄, hPrev₃, hPrev₂, hPrev₁]

theorem llRemove_spec
    {ll : Linlist Ptr Item}
    {node a b : Ptr}
    (hPrev : ll.prev node = some a)
    (hNext : ll.next node = some b)
    (hLeft : ll.Allocated a)
    (hRight : ll.Allocated b) :
    ∃ ll',
      llRemove ll node = some ll' ∧
        SameItems ll ll' ∧
        ll'.count = toInt32 (ll.count - 1) ∧
        ll'.next = Function.update ll.next a (some b) ∧
        ll'.prev = Function.update ll.prev b (some a) := by
  rcases setPrev_spec hRight a with
    ⟨ll₁, hSet₁, hSame₁, hCount₁, hNext₁, hPrev₁⟩
  rcases setNext_spec (hSame₁.allocated hLeft) b with
    ⟨ll₂, hSet₂, hSame₂, hCount₂, hNext₂, hPrev₂⟩
  have hSame := hSame₁.trans hSame₂
  refine
    ⟨{ ll₂ with count := toInt32 (ll₂.count - 1) }, ?_,
      ⟨hSame.head, hSame.item, hSame.freedItems,
        hSame.freedNodes⟩, ?_, ?_, ?_⟩
  · simp only [llRemove, hPrev, hNext, hSet₁, hSet₂,
      Option.bind_eq_bind, Option.bind_some]
  · change toInt32 (ll₂.count - 1) = toInt32 (ll.count - 1)
    rw [hCount₂, hCount₁]
  · change ll₂.next = _
    rw [hNext₂, hNext₁]
  · change ll₂.prev = _
    rw [hPrev₂, hPrev₁]

end BtPeer

------------------------------------------------------------
-- The Shape of the List
------------------------------------------------------------

namespace BtPeer

open CircularList Linlist

variable {Ptr Item : Type}

/-
  The nodes are linked into a ring over the members, and
  `count` is their number as an `int`.
-/
structure Represents
    (ll : Linlist Ptr Item)
    (members : List Ptr) : Prop where
  ring : Ring ll.next ll.prev ll.head members
  count : ll.count = toInt32 members.length

theorem toInt32_add
    (x y : Int) :
    toInt32 (toInt32 x + y) = toInt32 (x + y) :=
  Int.bmod_add_bmod

namespace Represents

variable {ll : Linlist Ptr Item}
variable {members : List Ptr}

theorem allocated
    (hRep : Represents ll members)
    {p : Ptr}
    (hp : p ∈ ll.head :: members) :
    ll.Allocated p := by
  rcases hRep.ring.exists_next hp with ⟨q, hNext⟩
  exact Allocated.of_next hNext

/- Other memory may change. -/
theorem elsewhere
    (hRep : Represents ll members)
    {mem : Ptr → Option (LlNode Ptr Item)}
    (hMembers :
      ∀ p ∈ ll.head :: members, mem p = ll.mem p) :
    Represents { ll with mem := mem } members where
  ring :=
    hRep.ring.congr
      (fun p hp => congrArg (Option.map _) (hMembers p hp))
      (fun p hp => congrArg (Option.map _) (hMembers p hp))
  count := hRep.count

variable [DecidableEq Ptr]

theorem ofInit
    (hHead : ll.Allocated ll.head) :
    ∃ ll',
      initLinkedlist ll = some ll' ∧
        SameItems ll ll' ∧
        Represents ll' [] := by
  rcases initLinkedlist_spec hHead with
    ⟨ll', hInit, hSame, hCount, hNext, hPrev⟩
  refine ⟨ll', hInit, hSame, ?_, ?_⟩
  · rw [hSame.head]
    refine Ring.empty ?_ ?_
    · rw [hNext, Function.update_self]
    · rw [hPrev, Function.update_self]
  · rw [hCount, List.length_nil]
    decide

/- A node that is not a member becomes the last one. -/
theorem insertLast
    (hRep : Represents ll members)
    {node : Ptr}
    (hFresh : node ∉ ll.head :: members)
    (hNode : ll.Allocated node) :
    ∃ ll',
      llInsertLast ll node = some ll' ∧
        SameItems ll ll' ∧
        Represents ll' (members ++ [node]) := by
  rcases hRep.ring.exists_last with
    ⟨front, last, hSplit, hPrev⟩
  have hLast : ll.Allocated last :=
    hRep.allocated (by rw [hSplit]; simp)
  rcases llInsertLast_spec hPrev hLast hNode with
    ⟨ll', hInsert, hSame, hCount, hNext', hPrev'⟩
  refine ⟨ll', hInsert, hSame, ?_, ?_⟩
  · rw [hSame.head, hNext', hPrev']
    exact hRep.ring.insertLast hFresh hPrev
  · rw [hCount, hRep.count, toInt32_add, List.length_append]
    rfl

/- A member is taken out, wherever it stands. -/
theorem remove
    (hRep : Represents ll members)
    {node : Ptr}
    (hMember : node ∈ members) :
    ∃ ll',
      llRemove ll node = some ll' ∧
        SameItems ll ll' ∧
        Represents ll' (members.erase node) := by
  rcases List.append_of_mem hMember with
    ⟨before, behind, rfl⟩
  have hErase :=
    erase_split (List.nodup_cons.mp hRep.ring.nodup).2
  rcases hRep.ring.remove with
    ⟨a, b, hPrev, hNext, hLeft, hRight, hRing⟩
  have hSub :
      ∀ p ∈ ll.head :: (before ++ behind),
        p ∈ ll.head :: (before ++ node :: behind) := by
    intro p hp
    simp only [List.mem_cons, List.mem_append] at hp ⊢
    tauto
  rcases llRemove_spec hPrev hNext
      (hRep.allocated (hSub a hLeft))
      (hRep.allocated (hSub b hRight)) with
    ⟨ll', hRemove, hSame, hCount, hNext', hPrev'⟩
  rw [hErase]
  refine ⟨ll', hRemove, hSame, ?_, ?_⟩
  · rw [hSame.head, hNext', hPrev']
    exact hRing
  · rw [hCount, hRep.count, Int.sub_eq_add_neg, toInt32_add]
    congr 1
    simp only [List.length_append, List.length_cons]
    omega

end Represents

end BtPeer

------------------------------------------------------------
-- Deleting All Nodes
------------------------------------------------------------

namespace BtPeer

open CircularList Linlist

variable {Ptr Item : Type} [DecidableEq Ptr]

section FreeNode

variable (ll : Linlist Ptr Item)
variable (iter : Ptr) (item : Item)

/- A freed node has no links and no item any more. -/
theorem freeNode_next :
    (freeNode ll iter item).next =
      Function.update ll.next iter none := by
  funext p
  by_cases hp : p = iter
  · subst hp
    simp [freeNode, Linlist.next]
  · simp [freeNode, Linlist.next, hp]

theorem freeNode_prev :
    (freeNode ll iter item).prev =
      Function.update ll.prev iter none := by
  funext p
  by_cases hp : p = iter
  · subst hp
    simp [freeNode, Linlist.prev]
  · simp [freeNode, Linlist.prev, hp]

theorem freeNode_item :
    (freeNode ll iter item).item =
      Function.update ll.item iter none := by
  funext p
  by_cases hp : p = iter
  · subst hp
    simp [freeNode, Linlist.item]
  · simp [freeNode, Linlist.item, hp]

/- Nodes that are not freed stay linked. -/
theorem freeNode_chain
    {l : List Ptr}
    (hChain : l.IsChain (Linked ll.next ll.prev))
    (hOther : iter ∉ l) :
    l.IsChain
      (Linked (freeNode ll iter item).next
        (freeNode ll iter item).prev) := by
  rw [freeNode_next, freeNode_prev]
  refine isChain_update hChain ?_ ?_ none none
  · intro hMem
    exact hOther (List.dropLast_subset l hMem)
  · intro hMem
    exact hOther (List.mem_of_mem_tail hMem)

theorem freeNode_items
    {l : List Ptr}
    (hOther : iter ∉ l) :
    l.map (freeNode ll iter item).item = l.map ll.item := by
  rw [freeNode_item]
  refine List.map_congr_left ?_
  intro p hp
  refine Function.update_of_ne ?_ _ _
  rintro rfl
  exact hOther hp

end FreeNode

/-
  From the first of some nodes on, the loop frees each node
  and its item once, in order, and reads no freed node.
-/
theorem deleteLoop_chain
    {ll : Linlist Ptr Item}
    {members : List Ptr}
    {iter : Ptr}
    {n : Nat}
    (hIter : (members ++ [ll.head]).head? = some iter)
    (hChain :
      (members ++ [ll.head]).IsChain (Linked ll.next ll.prev))
    (hNodup : (ll.head :: members).Nodup)
    (hFuel : members.length ≤ n) :
    ∃ ll' items,
      deleteLoop n iter ll = some ll' ∧
        members.map ll.item = items.map some ∧
        ll'.head = ll.head ∧
        ll'.freedItems = ll.freedItems ++ items ∧
        ll'.freedNodes = ll.freedNodes ++ members ∧
        ∀ p,
          ll'.mem p = if p ∈ members then none else ll.mem p := by
  induction members generalizing ll iter n with
  | nil =>
      simp only [List.nil_append, List.head?_cons,
        Option.some.injEq] at hIter
      subst hIter
      refine ⟨ll, [], ?_, rfl, rfl, ?_, ?_, ?_⟩
      · cases n <;> simp [deleteLoop]
      · rw [List.append_nil]
      · rw [List.append_nil]
      · intro p
        simp
  | cons node members ih =>
      simp only [List.cons_append, List.head?_cons,
        Option.some.injEq] at hIter
      subst hIter
      rcases List.exists_cons_of_ne_nil
          (show members ++ [ll.head] ≠ [] by simp) with
        ⟨q, back, hBack⟩
      rw [List.cons_append, hBack,
        List.isChain_cons_cons, ← hBack] at hChain
      rcases hChain with ⟨hLinked, hRest⟩
      rcases Option.map_eq_some_iff.mp hLinked.forward with
        ⟨cell, hCell, hNextCell⟩
      rw [List.nodup_cons, List.mem_cons, not_or,
        List.nodup_cons] at hNodup
      rcases hNodup with
        ⟨⟨hHead, hNotMember⟩, hNotRest, hNodupRest⟩
      have hOther : node ∉ members ++ [ll.head] := by
        rw [List.mem_append, List.mem_singleton, not_or]
        exact ⟨hNotRest, Ne.symm hHead⟩
      cases n with
      | zero => exact absurd hFuel (Nat.not_succ_le_zero _)
      | succ n =>
          have hIter' :
              (members ++
                [(freeNode ll node cell.item).head]).head? =
                  some cell.next := by
            change (members ++ [ll.head]).head? = _
            rw [hBack, hNextCell, List.head?_cons]
          rcases ih hIter'
              (freeNode_chain ll node cell.item hRest hOther)
              (List.nodup_cons.mpr ⟨hNotMember, hNodupRest⟩)
              (Nat.le_of_succ_le_succ hFuel) with
            ⟨ll', items, hLoop, hItems, hHead', hFreedItems,
              hFreedNodes, hMem⟩
          rw [freeNode_items ll node cell.item hNotRest]
            at hItems
          refine
            ⟨ll', cell.item :: items, ?_, ?_, hHead', ?_, ?_,
              ?_⟩
          · rw [deleteLoop, if_neg (Ne.symm hHead), hCell]
            exact hLoop
          · have hItem : ll.item node = some cell.item := by
              simp [Linlist.item, hCell]
            rw [List.map_cons, List.map_cons, hItem, hItems]
          · rw [hFreedItems]
            exact List.append_assoc _ [cell.item] items
          · rw [hFreedNodes]
            exact List.append_assoc _ [node] members
          · intro p
            rw [hMem p]
            by_cases hp : p = node
            · subst hp
              simp [hNotRest, freeNode]
            · simp [hp, freeNode]

/-
  `ll_delete_allnodes` frees the members, each with its
  item, and nothing else.
-/
theorem Represents.delete
    {ll : Linlist Ptr Item}
    {members : List Ptr}
    {n : Nat}
    (hRep : Represents ll members)
    (hFuel : members.length ≤ n) :
    ∃ ll' items,
      llDeleteAllnodes n ll = some ll' ∧
        members.map ll.item = items.map some ∧
        ll'.head = ll.head ∧
        ll'.freedItems = ll.freedItems ++ items ∧
        ll'.freedNodes = ll.freedNodes ++ members ∧
        ∀ p,
          ll'.mem p = if p ∈ members then none else ll.mem p := by
  rcases hRep.ring.exists_next List.mem_cons_self with
    ⟨iter, hStart⟩
  rcases deleteLoop_chain
      (hRep.ring.next_head.symm.trans hStart)
      hRep.ring.chain.tail hRep.ring.nodup hFuel with
    ⟨ll', items, hLoop, hRest⟩
  refine ⟨ll', items, ?_, hRest⟩
  simp only [llDeleteAllnodes, hStart,
    Option.bind_eq_bind, Option.bind_some, hLoop]

/- Only the sentinel is left, and it is the empty list. -/
theorem Represents.initAfter
    {ll ll' : Linlist Ptr Item}
    {members : List Ptr}
    (hRep : Represents ll members)
    (hHead : ll'.head = ll.head)
    (hMem :
      ∀ p,
        ll'.mem p = if p ∈ members then none else ll.mem p) :
    ∃ ll'',
      initLinkedlist ll' = some ll'' ∧
        SameItems ll' ll'' ∧
        Represents ll'' [] := by
  apply Represents.ofInit
  rcases hRep.allocated List.mem_cons_self with
    ⟨cell, hCell⟩
  refine ⟨cell, ?_⟩
  rw [hHead, hMem,
    if_neg (List.nodup_cons.mp hRep.ring.nodup).1, hCell]

end BtPeer

------------------------------------------------------------
-- Runs
------------------------------------------------------------

namespace BtPeer

open CircularList Linlist

variable {Ptr Item : Type} [DecidableEq Ptr]

/-
  The lists that `init_linkedlist`, `ll_insert_last` and
  `ll_remove` lead to, each with the nodes inserted and not
  yet removed. In between, memory may change anywhere but in
  the list itself.
-/
inductive Reached : Linlist Ptr Item → List Ptr → Prop
| init
    {ll ll' : Linlist Ptr Item}
    (hInit : initLinkedlist ll = some ll') :
    Reached ll' []
| elsewhere
    {ll : Linlist Ptr Item}
    {members : List Ptr}
    (mem : Ptr → Option (LlNode Ptr Item))
    (hReached : Reached ll members)
    (hMembers :
      ∀ p ∈ ll.head :: members, mem p = ll.mem p) :
    Reached { ll with mem := mem } members
| insertLast
    {ll ll' : Linlist Ptr Item}
    {members : List Ptr}
    {node : Ptr}
    (hReached : Reached ll members)
    (hFresh : node ∉ ll.head :: members)
    (hNode : ll.Allocated node)
    (hInsert : llInsertLast ll node = some ll') :
    Reached ll' (members ++ [node])
| remove
    {ll ll' : Linlist Ptr Item}
    {members : List Ptr}
    {node : Ptr}
    (hReached : Reached ll members)
    (hMember : node ∈ members)
    (hRemove : llRemove ll node = some ll') :
    Reached ll' (members.erase node)

/- `init_linkedlist` writes to the sentinel first. -/
theorem allocated_of_init
    {ll ll' : Linlist Ptr Item}
    (hInit : initLinkedlist ll = some ll') :
    ll.Allocated ll.head := by
  cases hHead : ll.mem ll.head with
  | none =>
      have hNone : initLinkedlist ll = none := by
        simp [initLinkedlist, setNext, hHead]
      rw [hNone] at hInit
      cases hInit
  | some cell => exact ⟨cell, hHead⟩

/- The shape holds in every state of a run. -/
theorem Reached.represents
    {ll : Linlist Ptr Item}
    {members : List Ptr}
    (hReached : Reached ll members) :
    Represents ll members := by
  induction hReached with
  | init hInit =>
      rcases Represents.ofInit (allocated_of_init hInit) with
        ⟨ll', hInit', _, hRep⟩
      rw [hInit, Option.some.injEq] at hInit'
      exact hInit' ▸ hRep
  | elsewhere mem _ hMembers ih => exact ih.elsewhere hMembers
  | insertLast _ hFresh hNode hInsert ih =>
      rcases ih.insertLast hFresh hNode with
        ⟨ll', hInsert', _, hRep⟩
      rw [hInsert, Option.some.injEq] at hInsert'
      exact hInsert' ▸ hRep
  | remove _ hMember hRemove ih =>
      rcases ih.remove hMember with
        ⟨ll', hRemove', _, hRep⟩
      rw [hRemove, Option.some.injEq] at hRemove'
      exact hRemove' ▸ hRep

/-
  The nodes met from the sentinel until it is met again, in
  at most `n` steps: along `next` and along `prev`.
-/
def visitNext
    (n : Nat)
    (ll : Linlist Ptr Item) : Option (List Ptr) :=
  (llStart ll).bind (walk (llNext ll) (llEnd ll) n)

def visitPrev
    (n : Nat)
    (ll : Linlist Ptr Item) : Option (List Ptr) :=
  (ll.prev ll.head).bind (walk ll.prev ll.head n)

/- Both directions visit exactly the members, once each. -/
structure Visits
    (ll : Linlist Ptr Item)
    (members : List Ptr) : Prop where
  nodup : (ll.head :: members).Nodup
  forward :
    ∀ n, members.length ≤ n →
      visitNext n ll = some members
  backward :
    ∀ n, members.length ≤ n →
      visitPrev n ll = some members.reverse

theorem Represents.visits
    {ll : Linlist Ptr Item}
    {members : List Ptr}
    (hRep : Represents ll members) :
    Visits ll members where
  nodup := hRep.ring.nodup
  forward := fun _ hFuel => hRep.ring.walk_eq hFuel
  backward := fun _ hFuel =>
    hRep.ring.reverse.walk_eq
      (by rw [List.length_reverse]; exact hFuel)

/-
  `ll_delete_allnodes` and then `init_linkedlist`: every
  member and its item are freed once, in order, and the list
  is empty.
-/
def Clears
    (n : Nat)
    (ll : Linlist Ptr Item)
    (members : List Ptr) : Prop :=
  ∃ ll' ll'' items,
    llDeleteAllnodes n ll = some ll' ∧
      initLinkedlist ll' = some ll'' ∧
      members.map ll.item = items.map some ∧
      ll''.freedItems = ll.freedItems ++ items ∧
      ll''.freedNodes = ll.freedNodes ++ members ∧
      Visits ll'' [] ∧
      llCount ll'' = 0

theorem Represents.clears
    {ll : Linlist Ptr Item}
    {members : List Ptr}
    {n : Nat}
    (hRep : Represents ll members)
    (hFuel : members.length ≤ n) :
    Clears n ll members := by
  rcases hRep.delete hFuel with
    ⟨ll', items, hDelete, hItems, hHead, hFreedItems,
      hFreedNodes, hMem⟩
  rcases hRep.initAfter hHead hMem with
    ⟨ll'', hInit, hSame, hEmpty⟩
  refine
    ⟨ll', ll'', items, hDelete, hInit, hItems,
      hSame.freedItems.trans hFreedItems,
      hSame.freedNodes.trans hFreedNodes, hEmpty.visits, ?_⟩
  unfold llCount
  rw [hEmpty.count, List.length_nil]
  decide

/-
  In every state of a run the links visit the members in
  order and in reverse, `count` is their number as an `int`,
  every further operation has a result, and the list can be
  cleared.
-/
theorem linkedlist_members
    {ll : Linlist Ptr Item}
    {members : List Ptr}
    (hReached : Reached ll members) :
    Visits ll members ∧
      llCount ll = toInt32 members.length ∧
      (members.length ≤ 2147483647 →
        llCount ll = members.length) ∧
      (∀ node, node ∉ ll.head :: members →
        ll.Allocated node →
        ∃ ll', llInsertLast ll node = some ll') ∧
      (∀ node ∈ members, ∃ ll', llRemove ll node = some ll') ∧
      ∀ n, members.length ≤ n → Clears n ll members := by
  have hRep := hReached.represents
  refine ⟨hRep.visits, hRep.count, ?_, ?_, ?_, ?_⟩
  · intro hSmall
    unfold llCount
    rw [hRep.count, toInt32_eq_self (by omega) (by omega)]
  · intro node hFresh hNode
    rcases hRep.insertLast hFresh hNode with
      ⟨ll', hInsert, _⟩
    exact ⟨ll', hInsert⟩
  · intro node hMember
    rcases hRep.remove hMember with ⟨ll', hRemove, _⟩
    exact ⟨ll', hRemove⟩
  · intro n hFuel
    exact hRep.clears hFuel

/- Lists of every length are reached. -/
theorem exists_reached
    (n : Nat) :
    ∃ ll : Linlist Nat Unit,
      Reached ll (List.range' 1 n) ∧
        ll.head = 0 ∧
        ∀ p, ll.Allocated p := by
  induction n with
  | zero =>
      let start : Linlist Nat Unit :=
        { head := 0
          count := 0
          mem := fun _ => some ⟨0, 0, ()⟩
          freedItems := []
          freedNodes := [] }
      have hStart : ∀ p, start.Allocated p :=
        fun p => ⟨⟨0, 0, ()⟩, rfl⟩
      rcases Represents.ofInit (hStart start.head) with
        ⟨ll, hInit, hSame, _⟩
      exact
        ⟨ll, Reached.init hInit, hSame.head,
          fun p => hSame.allocated (hStart p)⟩
  | succ n ih =>
      rcases ih with ⟨ll, hReached, hHead, hAllocated⟩
      have hFresh : 1 + n ∉ ll.head :: List.range' 1 n := by
        rw [hHead, List.mem_cons, List.mem_range'_1]
        omega
      rcases hReached.represents.insertLast hFresh
          (hAllocated (1 + n)) with
        ⟨ll', hInsert, hSame, _⟩
      rw [List.range'_1_concat]
      exact
        ⟨ll', hReached.insertLast hFresh
            (hAllocated (1 + n)) hInsert,
          hSame.head.trans hHead,
          fun p => hSame.allocated (hAllocated p)⟩

/- Two nodes inserted: the walk and the count. -/
theorem linkedlist_members_two :
    ∃ ll : Linlist Nat Unit,
      Reached ll [1, 2] ∧
        visitNext 2 ll = some [1, 2] ∧
        visitPrev 2 ll = some [2, 1] ∧
        llCount ll = 2 := by
  rcases exists_reached 2 with ⟨ll, hReached, _⟩
  rcases linkedlist_members hReached with
    ⟨hVisits, _, hCount, _⟩
  exact
    ⟨ll, hReached, hVisits.forward 2 (Nat.le_refl 2),
      hVisits.backward 2 (Nat.le_refl 2),
      hCount (by decide)⟩

/- With 2 ^ 31 members `count` has wrapped around. -/
theorem linkedlist_count_overflow :
    ∃ (ll : Linlist Nat Unit) (members : List Nat),
      Reached ll members ∧
        members.length = 2147483648 ∧
        llCount ll ≠ members.length := by
  rcases exists_reached 2147483648 with ⟨ll, hReached, _⟩
  refine ⟨ll, _, hReached, List.length_range', ?_⟩
  unfold llCount
  rw [hReached.represents.count, List.length_range']
  decide

end BtPeer
