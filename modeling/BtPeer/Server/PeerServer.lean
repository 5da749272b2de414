import BtPeer.Server.SendHelper

/-
  Choosing chunks and checking timeouts (peer_server.c).

  Key definitions include:
    * `findUnfetchedChunk`
    * `trySendGet`
    * `refreshChunkDownload`
    * `checkPeer`
    * `checkAllTimeout`
-/

------------------------------------------------------------
-- Choosing A Chunk
------------------------------------------------------------

namespace BtPeer

/- The first unfetched entry of the list with this hash. -/
def unfetchedIndex
    (getchunks : ChunkList)
    (hash : CString) : Option Nat :=
  (List.range getchunks.count).find?
    (fun i =>
      (getchunks.chunks i).state = .unfetched &&
        (getchunks.chunks i).sha1 = hash)

theorem unfetchedIndex_spec
    {getchunks : ChunkList}
    {hash : CString}
    {i : Nat}
    (hFound : unfetchedIndex getchunks hash = some i) :
    i < getchunks.count ∧
      (getchunks.chunks i).state = .unfetched ∧
      (getchunks.chunks i).sha1 = hash := by
  have hLt :=
    List.mem_range.mp (List.mem_of_find?_eq_some hFound)
  have hTest := List.find?_some hFound
  rw [Bool.and_eq_true, decide_eq_true_eq,
    decide_eq_true_eq] at hTest
  exact ⟨hLt, hTest.1, hTest.2⟩

/-
  The loop of `find_unfetched_chunk` over a queue: the chunk
  found and the queue without the node that named it.
-/
def searchQueue
    (getchunks : ChunkList) :
    List CString → Option (Nat × List CString)
| [] => none
| hash :: dq =>
    match unfetchedIndex getchunks hash with
    | some i => some (i, dq)
    | none =>
        match searchQueue getchunks dq with
        | some (i, dq') => some (i, hash :: dq')
        | none => none

theorem searchQueue_spec
    {getchunks : ChunkList}
    {dq dq' : List CString}
    {i : Nat}
    (hFound : searchQueue getchunks dq = some (i, dq')) :
    i < getchunks.count ∧
      (getchunks.chunks i).state = .unfetched ∧
      (getchunks.chunks i).sha1 ∈ dq := by
  induction dq generalizing i dq' with
  | nil => simp [searchQueue] at hFound
  | cons hash dq ih =>
      simp only [searchQueue] at hFound
      split at hFound
      · rename_i j hIndex
        rw [Option.some.injEq, Prod.mk.injEq] at hFound
        rcases hFound with ⟨rfl, rfl⟩
        rcases unfetchedIndex_spec hIndex with
          ⟨hLt, hState, hHash⟩
        rw [hHash]
        exact ⟨hLt, hState, List.mem_cons_self⟩
      · split at hFound
        · rename_i j rest hRest
          rw [Option.some.injEq, Prod.mk.injEq] at hFound
          rcases hFound with ⟨rfl, rfl⟩
          rcases ih hRest with ⟨hLt, hState, hMem⟩
          exact ⟨hLt, hState, List.mem_cons_of_mem hash hMem⟩
        · simp at hFound

/- What a search leaves of a queue was in it. -/
theorem searchQueue_rest
    {cl : ChunkList}
    {dq dq' : List CString}
    {i : Nat}
    (hFound : searchQueue cl dq = some (i, dq')) :
    ∀ hash ∈ dq', hash ∈ dq := by
  induction dq generalizing dq' with
  | nil => cases hFound
  | cons first dq ih =>
      unfold searchQueue at hFound
      cases hIndex : unfetchedIndex cl first with
      | some k =>
          rw [hIndex] at hFound
          cases hFound
          intro hash hMem
          exact List.mem_cons_of_mem first hMem
      | none =>
          rw [hIndex] at hFound
          cases hRest : searchQueue cl dq with
          | none =>
              rw [hRest] at hFound
              cases hFound
          | some found =>
              rcases found with ⟨k, rest⟩
              rw [hRest] at hFound
              cases hFound
              intro hash hMem
              rcases List.mem_cons.mp hMem with rfl | hLater
              · exact List.mem_cons_self
              · exact List.mem_cons_of_mem first
                  (ih hRest hash hLater)

/-
  `find_unfetched_chunk` for a peer: the chunk is recorded in
  `dl.get_index` and its node leaves the queue.
-/
def findUnfetchedChunk
    (s : PeerServer)
    (p : Nat) : PeerServer × Option Nat :=
  match searchQueue s.getchunks (s.peer p).hasqueue with
  | some (i, dq) =>
      (s.setPeer p
          { s.peer p with
            hasqueue := dq
            dl := { (s.peer p).dl with getIndex := i } },
        some i)
  | none => (s, none)

/- `try_send_get` -/
def trySendGet
    (env : Env)
    (s : PeerServer)
    (p : Nat) : PeerServer :=
  match findUnfetchedChunk s p with
  | (s, some getIndex) =>
      let s := sendGet env s p getIndex
      let s :=
        s.setPeer p { s.peer p with isDownloading := true }
      startDownload env s p getIndex
  | (s, none) => s

/- `NOT_GOOD_FOR_DOWNLOAD` -/
def notGoodForDownload (pr : Peer) : Bool :=
  ! pr.isAlive || pr.isDownloading

/- The loop of `refresh_chunk_download` from peer `i` on. -/
def refreshLoop
    (env : Env) :
    Nat → Nat → PeerServer → PeerServer
| 0, _, s => s
| k + 1, i, s =>
    if s.maxConn ≤ s.dlNum then s
    else if notGoodForDownload (s.peer i) then
      refreshLoop env k (i + 1) s
    else refreshLoop env k (i + 1) (trySendGet env s i)

/- The search for new sources when nothing is downloading. -/
def askAgain
    (env : Env)
    (s : PeerServer) : PeerServer :=
  if s.dlNum = 0 ∧ 0 < s.dlRemain ∧
      BitVec.ofNat 32 defaultTimeout <
        env.refreshNow - s.lastWhohas then
    { sendWhohas env s with lastWhohas := env.whohasTs }
  else s

/- `refresh_chunk_download` -/
def refreshChunkDownload
    (env : Env)
    (s : PeerServer) : PeerServer :=
  askAgain env (refreshLoop env s.peerlist.count 0 s)

end BtPeer

------------------------------------------------------------
-- Timeouts
------------------------------------------------------------

namespace BtPeer

/- `dl_check_timeout` of peer `i`, and the count it returns. -/
def checkDownload
    (env : Env)
    (s : PeerServer)
    (i : Nat) : PeerServer × Int :=
  match
    dlCheckTimeout (env.dlNow i) (env.dlTs i) (s.peer i).dl
  with
  | (dl, sent, cnt) =>
      ((s.setPeer i { s.peer i with dl := dl }).sendAll env
        sent, cnt)

/- `ul_check_timeout` of peer `i`, and the count it returns. -/
def checkUpload
    (env : Env)
    (s : PeerServer)
    (i : Nat) : PeerServer × Int :=
  match
    ulCheckTimeout (env.ulNow i) (env.sendTs i) (s.peer i).ul
  with
  | (ul, sent, cnt) =>
      ((s.setPeer i { s.peer i with ul := ul }).sendAll env
        sent, cnt)

/- Give up downloading from peer `i`. -/
def abortDownload
    (s : PeerServer)
    (i : Nat) : PeerServer :=
  let s := killDownload s (s.peer i).dl
  let s :=
    if (s.peer i).isUploading then finishUpload s i else s
  s.setPeer i (die (s.peer i))

/- Give up uploading to peer `i`. -/
def abortUpload
    (s : PeerServer)
    (i : Nat) : PeerServer :=
  let s := finishUpload s i
  let s :=
    if (s.peer i).isDownloading then
      killDownload s (s.peer i).dl
    else s
  s.setPeer i (die (s.peer i))

/- The first test of `check_all_timeout`. -/
def checkDownloading
    (env : Env)
    (s : PeerServer)
    (i : Nat) : PeerServer :=
  if (s.peer i).isDownloading then
    match checkDownload env s i with
    | (s, cnt) =>
        if maxTimeoutCnt < cnt then abortDownload s i else s
  else s

/- The second test of `check_all_timeout`. -/
def checkUploading
    (env : Env)
    (s : PeerServer)
    (i : Nat) : PeerServer :=
  if (s.peer i).isUploading then
    match checkUpload env s i with
    | (s, cnt) =>
        if maxTimeoutCnt < cnt then abortUpload s i else s
  else s

/- The body of the loop of `check_all_timeout`. -/
def checkPeer
    (env : Env)
    (s : PeerServer)
    (i : Nat) : PeerServer :=
  if (s.peer i).isAlive then
    checkUploading env (checkDownloading env s i) i
  else s

/- The loop of `check_all_timeout` from peer `i` on. -/
def checkLoop
    (env : Env) :
    Nat → Nat → PeerServer → PeerServer
| 0, _, s => s
| k + 1, i, s => checkLoop env k (i + 1) (checkPeer env s i)

/- `check_all_timeout` -/
def checkAllTimeout
    (env : Env)
    (s : PeerServer) : PeerServer :=
  let s := checkLoop env s.peerlist.count 0 s
  if 0 < s.dlRemain then refreshChunkDownload env s else s

/- `addr2Index`, none for -1. -/
def addr2Index
    (s : PeerServer)
    (addr : Address) : Option Nat :=
  (List.range s.peerlist.count).find?
    (fun i => (s.peer i).addr = addr)

theorem addr2Index_lt
    {s : PeerServer}
    {addr : Address}
    {p : Nat}
    (hFound : addr2Index s addr = some p) :
    p < s.peerlist.count :=
  List.mem_range.mp (List.mem_of_find?_eq_some hFound)

/- Peers are found by their address only. -/
theorem addr2Index_setPeer
    (s : PeerServer)
    {p : Nat}
    {pr : Peer}
    (hAddr : pr.addr = (s.peer p).addr)
    (addr : Address) :
    addr2Index (s.setPeer p pr) addr = addr2Index s addr := by
  have hSame (i : Nat) :
      ((s.setPeer p pr).peer i).addr = (s.peer i).addr := by
    rw [PeerServer.setPeer_peer]
    split
    · rename_i hEq
      rw [hAddr, hEq]
    · rfl
  have hCount :
      (s.setPeer p pr).peerlist.count = s.peerlist.count :=
    rfl
  simp only [addr2Index, hSame, hCount]

end BtPeer
