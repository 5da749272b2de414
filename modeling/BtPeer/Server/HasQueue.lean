import BtPeer.LinkedList
import BtPeer.Server.Discovery

/-
  The queue of a peer in memory (send_helper.c and
  peer_server.c over linkedlist.c).

  The model of the server keeps the queue as the list of its
  hashes. Here the loops of `find_unfetched_chunk` and
  `parse_download` run over the nodes, and do to the list of
  hashes what the server does.

  Key definitions include:
    * `Holds`
    * `searchNodes`
    * `replaceQueue`

  Key theorems include:
    * `searchNodes_refines`
    * `findUnfetchedChunk_nodes`
    * `parseDownload_nodes`
-/

------------------------------------------------------------
-- Queues of Nodes
------------------------------------------------------------

namespace BtPeer

open Linlist

variable {Ptr : Type}

/- The nodes are linked in order and carry these hashes. -/
structure Holds
    (ll : Linlist Ptr CString)
    (members : List Ptr)
    (dq : List CString) : Prop where
  represents : Represents ll members
  items : members.map ll.item = dq.map some

variable [DecidableEq Ptr]

/-
  The loop of `find_unfetched_chunk`: the node that names an
  unfetched chunk is removed while the list is walked.
-/
def searchNodes
    (getchunks : ChunkList) :
    Nat → Ptr → Linlist Ptr CString →
      Option (Linlist Ptr CString × Option Nat)
| 0, iter, ll =>
    if iter = llEnd ll then some (ll, none) else none
| n + 1, iter, ll =>
    if iter = llEnd ll then some (ll, none)
    else
      match ll.mem iter with
      | none => none
      | some node =>
          match unfetchedIndex getchunks node.item with
          | some i =>
              (llRemove ll iter).map (fun ll => (ll, some i))
          | none => searchNodes getchunks n node.next ll

/- `new_ll_Node` at the free block that `malloc` returned. -/
def newLlNode
    (ll : Linlist Ptr CString)
    (node : Ptr)
    (block : LlNode Ptr CString) :
    Option (Linlist Ptr CString) :=
  if (ll.mem node).isNone then
    some
      { ll with
        mem := Function.update ll.mem node (some block) }
  else none

/-
  The loop of `parse_download` over the new nodes; the item
  of each is the hash that `GET_HASH` writes.
-/
def queueHashes :
    List (Ptr × LlNode Ptr CString) →
      Linlist Ptr CString → Option (Linlist Ptr CString)
| [], ll => some ll
| (node, block) :: blocks, ll => do
    let ll ← newLlNode ll node block
    let ll ← llInsertLast ll node
    queueHashes blocks ll

/-
  `parse_download` when memory suffices: `count` decides
  whether there is an old queue to free.
-/
def replaceQueue
    (n : Nat)
    (blocks : List (Ptr × LlNode Ptr CString))
    (ll : Linlist Ptr CString) :
    Option (Linlist Ptr CString) :=
  if llCount ll ≠ 0 then do
    let ll ← llDeleteAllnodes n ll
    let ll ← initLinkedlist ll
    queueHashes blocks ll
  else queueHashes blocks ll

end BtPeer

------------------------------------------------------------
-- Searching the Nodes
------------------------------------------------------------

namespace BtPeer

open CircularList Linlist

variable {Ptr : Type} [DecidableEq Ptr]
variable {ll : Linlist Ptr CString}

/-
  The search from the middle of the queue: what stands
  before is kept.
-/
theorem searchNodes_from
    (getchunks : ChunkList)
    (before : List Ptr)
    (dqBefore : List CString)
    {n : Nat}
    {iter : Ptr}
    {behind : List Ptr}
    {dq : List CString}
    (hRep : Represents ll (before ++ behind))
    (hBefore : before.map ll.item = dqBefore.map some)
    (hBehind : behind.map ll.item = dq.map some)
    (hIter : (behind ++ [ll.head]).head? = some iter)
    (hFuel : behind.length ≤ n) :
    ∃ ll' members',
      searchNodes getchunks n iter ll =
          some
            (ll', (searchQueue getchunks dq).map Prod.fst) ∧
        Holds ll' members'
          (dqBefore ++
            ((searchQueue getchunks dq).map Prod.snd).getD
              dq) := by
  induction behind generalizing before dqBefore dq iter n with
  | nil =>
      cases dq with
      | cons hash dq => cases hBehind
      | nil =>
          simp only [List.nil_append, List.head?_cons,
            Option.some.injEq] at hIter
          subst hIter
          refine ⟨ll, before ++ [], ?_, hRep, ?_⟩
          · cases n <;> simp [searchNodes, llEnd, searchQueue]
          · simpa [searchQueue] using hBefore
  | cons node behind ih =>
      cases dq with
      | nil => cases hBehind
      | cons hash dq =>
          simp only [List.cons_append, List.head?_cons,
            Option.some.injEq] at hIter
          subst hIter
          rw [List.map_cons, List.map_cons,
            List.cons.injEq] at hBehind
          rcases hBehind with ⟨hItem, hRest⟩
          rcases Option.map_eq_some_iff.mp hItem with
            ⟨cell, hCell, hHash⟩
          have hNodup := hRep.ring.nodup
          have hHead : node ≠ ll.head := by
            rintro rfl
            exact (List.nodup_cons.mp hNodup).1 (by simp)
          cases n with
          | zero => exact absurd hFuel (Nat.not_succ_le_zero _)
          | succ n =>
              rw [searchNodes, llEnd, if_neg hHead, hCell]
              simp only [hHash, searchQueue]
              cases hFound : unfetchedIndex getchunks hash with
              | some i =>
                  rcases hRep.remove
                      (show node ∈ before ++ node :: behind
                        by simp) with
                    ⟨ll', hRemove, hSame, hRep'⟩
                  rw [erase_split (List.nodup_cons.mp hNodup).2]
                    at hRep'
                  refine
                    ⟨ll', before ++ behind, ?_, hRep', ?_⟩
                  · simp only [hRemove, Option.map_some]
                  · rw [hSame.item]
                    simp [hBefore, hRest]
              | none =>
                  have hNext :
                      (behind ++ [ll.head]).head? =
                        some cell.next := by
                    rw [← hRep.ring.next_eq
                        (List.cons_append).symm,
                      Linlist.next, hCell, Option.map_some]
                  rcases ih (before ++ [node])
                      (dqBefore ++ [hash])
                      (by simpa using hRep)
                      (by simp [hBefore, hItem]) hRest hNext
                      (Nat.le_of_succ_le_succ hFuel) with
                    ⟨ll', members', hLoop, hHolds⟩
                  refine ⟨ll', members', ?_, ?_⟩
                  · simp only [hLoop]
                    cases searchQueue getchunks dq <;> rfl
                  · cases hSearch : searchQueue getchunks dq with
                    | none => simpa [hSearch] using hHolds
                    | some found =>
                        simpa [hSearch] using hHolds

/- The loop over the nodes is the search of the queue. -/
theorem searchNodes_refines
    (getchunks : ChunkList)
    {members : List Ptr}
    {dq : List CString}
    {n : Nat}
    (hHolds : Holds ll members dq)
    (hFuel : members.length ≤ n) :
    ∃ iter ll' members',
      llStart ll = some iter ∧
        searchNodes getchunks n iter ll =
          some
            (ll', (searchQueue getchunks dq).map Prod.fst) ∧
        Holds ll' members'
          (((searchQueue getchunks dq).map Prod.snd).getD
            dq) := by
  have hRing := hHolds.represents.ring
  rcases hRing.exists_next List.mem_cons_self with
    ⟨iter, hStart⟩
  rcases searchNodes_from getchunks [] []
      hHolds.represents rfl hHolds.items
      (hRing.next_head.symm.trans hStart) hFuel with
    ⟨ll', members', hLoop, hHolds'⟩
  exact ⟨iter, ll', members', hStart, hLoop, hHolds'⟩

/-
  `find_unfetched_chunk` over the nodes finds the chunk that
  the server finds, and leaves the queue that it leaves.
-/
theorem findUnfetchedChunk_nodes
    (s : PeerServer)
    (p : Nat)
    {members : List Ptr}
    {n : Nat}
    (hHolds : Holds ll members (s.peer p).hasqueue)
    (hFuel : members.length ≤ n) :
    ∃ iter ll' members',
      llStart ll = some iter ∧
        searchNodes s.getchunks n iter ll =
          some (ll', (findUnfetchedChunk s p).2) ∧
        Holds ll' members'
          ((findUnfetchedChunk s p).1.peer p).hasqueue := by
  rcases searchNodes_refines s.getchunks hHolds hFuel with
    ⟨iter, ll', members', hStart, hLoop, hHolds'⟩
  refine ⟨iter, ll', members', hStart, ?_, ?_⟩
  · rw [hLoop]
    unfold findUnfetchedChunk
    cases searchQueue s.getchunks (s.peer p).hasqueue <;> rfl
  · unfold findUnfetchedChunk
    cases hSearch :
        searchQueue s.getchunks (s.peer p).hasqueue with
    | none => simpa [hSearch] using hHolds'
    | some found => simpa [hSearch] using hHolds'

end BtPeer

------------------------------------------------------------
-- Replacing the Queue
------------------------------------------------------------

namespace BtPeer

open Linlist

variable {Ptr : Type} [DecidableEq Ptr]
variable {ll ll' : Linlist Ptr CString}
variable {members : List Ptr}
variable {dq : List CString}

/- A new node is put behind the others. -/
theorem Holds.insertNew
    {ll₁ ll₂ : Linlist Ptr CString}
    {node : Ptr}
    {block : LlNode Ptr CString}
    (hHolds : Holds ll members dq)
    (hNew : newLlNode ll node block = some ll₁)
    (hInsert : llInsertLast ll₁ node = some ll₂) :
    Holds ll₂ (members ++ [node]) (dq ++ [block.item]) := by
  unfold newLlNode at hNew
  by_cases hFree : (ll.mem node).isNone = true
  · rw [if_pos hFree, Option.some.injEq] at hNew
    subst hNew
    have hFresh : node ∉ ll.head :: members := by
      intro hMem
      rcases hHolds.represents.allocated hMem with
        ⟨cell, hCell⟩
      rw [hCell] at hFree
      cases hFree
    have hOther :
        ∀ p ∈ ll.head :: members,
          Function.update ll.mem node (some block) p =
            ll.mem p := by
      intro p hp
      refine Function.update_of_ne ?_ _ _
      rintro rfl
      exact hFresh hp
    have hRep := hHolds.represents.elsewhere hOther
    rcases hRep.insertLast hFresh
        ⟨block, Function.update_self node _ _⟩ with
      ⟨ll₂', hInsert', hSame, hRep'⟩
    rw [hInsert, Option.some.injEq] at hInsert'
    subst hInsert'
    refine ⟨hRep', ?_⟩
    rw [hSame.item, List.map_append, List.map_append,
      ← hHolds.items]
    congr 1
    · refine List.map_congr_left ?_
      intro p hp
      exact congrArg (Option.map LlNode.item)
        (hOther p (List.mem_cons_of_mem _ hp))
    · simp [Linlist.item]
  · rw [if_neg hFree] at hNew
    cases hNew

theorem Holds.queueHashes
    {blocks : List (Ptr × LlNode Ptr CString)}
    (hHolds : Holds ll members dq)
    (hQueue : queueHashes blocks ll = some ll') :
    Holds ll' (members ++ blocks.map Prod.fst)
      (dq ++ blocks.map (fun block => block.2.item)) := by
  induction blocks generalizing ll members dq with
  | nil =>
      cases hQueue
      simpa using hHolds
  | cons block blocks ih =>
      rcases block with ⟨node, block⟩
      rw [BtPeer.queueHashes, Option.bind_eq_bind,
        Option.bind_eq_some_iff] at hQueue
      rcases hQueue with ⟨ll₁, hNew, hRest⟩
      rw [Option.bind_eq_some_iff] at hRest
      rcases hRest with ⟨ll₂, hInsert, hQueue⟩
      simpa using ih (hHolds.insertNew hNew hInsert) hQueue

/- `count` is zero for the empty list only. -/
omit [DecidableEq Ptr] in
theorem Represents.count_eq_zero_iff
    (hRep : Represents ll members)
    (hSmall : members.length < 4294967296) :
    llCount ll = 0 ↔ members = [] := by
  unfold llCount
  rw [hRep.count, ← List.length_eq_zero_iff]
  unfold toInt32
  rw [← Int.dvd_iff_bmod_eq_zero]
  omega

/- The old queue is gone and the new one is in order. -/
theorem Holds.replaceQueue
    {blocks : List (Ptr × LlNode Ptr CString)}
    {n : Nat}
    (hHolds : Holds ll members dq)
    (hSmall : members.length < 4294967296)
    (hFuel : members.length ≤ n)
    (hReplace : replaceQueue n blocks ll = some ll') :
    Holds ll' (blocks.map Prod.fst)
      (blocks.map (fun block => block.2.item)) := by
  unfold BtPeer.replaceQueue at hReplace
  by_cases hCount : llCount ll = 0
  · rw [if_neg (by simp [hCount])] at hReplace
    have hEmpty :=
      (hHolds.represents.count_eq_zero_iff hSmall).mp hCount
    subst hEmpty
    have hNoHash : dq = [] := by
      have hItems := hHolds.items
      cases dq with
      | nil => rfl
      | cons hash dq => cases hItems
    subst hNoHash
    exact hHolds.queueHashes hReplace
  · rw [if_pos hCount] at hReplace
    rcases hHolds.represents.delete hFuel with
      ⟨ll₁, items, hDelete, _, hHead, _, _, hMem⟩
    rcases hHolds.represents.initAfter hHead hMem with
      ⟨ll₂, hInit, _, hEmpty⟩
    simp only [hDelete, hInit, Option.bind_eq_bind,
      Option.bind_some] at hReplace
    have hNone : Holds ll₂ [] [] := ⟨hEmpty, rfl⟩
    exact hNone.queueHashes hReplace

/-
  A `parse_download` that succeeds leaves in memory the
  queue that the server keeps, when the new nodes get the
  hashes of the packet.
-/
theorem parseDownload_nodes
    {env : Env}
    {s s' : PeerServer}
    {pkt : Packet}
    {p : Nat}
    {blocks : List (Ptr × LlNode Ptr CString)}
    {n : Nat}
    (hParse : parseDownload env s pkt p = (s', true))
    (hHolds : Holds ll members (s.peer p).hasqueue)
    (hSmall : members.length < 4294967296)
    (hFuel : members.length ≤ n)
    (hHashes :
      blocks.map (fun block => block.2.item) = pkt.hashes)
    (hReplace : replaceQueue n blocks ll = some ll') :
    Holds ll' (blocks.map Prod.fst)
      (s'.peer p).hasqueue := by
  have hNew :=
    hHolds.replaceQueue hSmall hFuel hReplace
  rw [hHashes] at hNew
  rw [parseDownload_spec hParse]
  simpa using hNew

end BtPeer
