import BtPeer.Library.Run
import BtPeer.Packet.Spelling
import BtPeer.Server.Discovery

/-
  Two runs of a server whose chunk files differ in the case
  of the hashes only.

  What comes over the network is spelled by `binary2hex`, so
  the two runs agree as long as each hash is spelled in lower
  case in both files or in neither.

  Key definitions include:
    * `Twin`
    * `TwinEvent`
    * `SpelledAlike`
    * `SameChoices`

  Key theorems include:
    * `parsePacket_twin`
    * `step_twin`
    * `spelling_irrelevant`
    * `upper_case_not_offered`
-/

------------------------------------------------------------
-- Searching
------------------------------------------------------------

namespace BtPeer

variable {cl cl' : ChunkList}

theorem unfetchedIndex_same
    (hList : SameList cl cl')
    {digest : CString}
    (hDigest : IsHashString digest) :
    unfetchedIndex cl digest = unfetchedIndex cl' digest := by
  unfold unfetchedIndex
  rw [hList.count]
  apply List.find?_congr
  intro i _
  rw [(hList.line i).state]
  congr 1
  exact
    decide_eq_decide.mpr
      ((hList.line i).sha1.eq_iff hDigest)

/- The same chunk is found from a queue of digests. -/
theorem searchQueue_same
    (hList : SameList cl cl')
    {dq : List CString}
    (hDigests : ∀ hash ∈ dq, IsHashString hash) :
    searchQueue cl dq = searchQueue cl' dq := by
  induction dq with
  | nil => rfl
  | cons hash dq ih =>
      have hRest :=
        ih (fun other hMem =>
          hDigests other (List.mem_cons_of_mem hash hMem))
      unfold searchQueue
      rw [unfetchedIndex_same hList
        (hDigests hash List.mem_cons_self), hRest]

end BtPeer

------------------------------------------------------------
-- Twins
------------------------------------------------------------

namespace BtPeer

namespace PeerServer

/- Every queue holds strings of `binary2hex` only. -/
def Digests (s : PeerServer) : Prop :=
  ∀ p, ∀ hash ∈ (s.peer p).hasqueue, IsHashString hash

/- The same server with other chunk lists. -/
def respell
    (s : PeerServer)
    (has get : ChunkList) : PeerServer :=
  { s with
    haschunks := has
    getchunks := get }

end PeerServer

open PeerServer

/- Servers that differ in the spelling of the chunk lists. -/
inductive Twin (s : PeerServer) : PeerServer → Prop where
  | mk
      (has get : ChunkList)
      (hHas : SameList s.haschunks has)
      (hGet : SameList s.getchunks get)
      (hQueues : s.Digests) :
      Twin s (s.respell has get)

namespace Twin

variable {s s' : PeerServer}

theorem getchunks
    (hTwin : Twin s s') :
    SameList s.getchunks s'.getchunks := by
  cases hTwin with
  | mk has get hHas hGet hQueues => exact hGet

theorem haschunks
    (hTwin : Twin s s') :
    SameList s.haschunks s'.haschunks := by
  cases hTwin with
  | mk has get hHas hGet hQueues => exact hHas

theorem queues (hTwin : Twin s s') : s.Digests := by
  cases hTwin with
  | mk has get hHas hGet hQueues => exact hQueues

theorem peer
    (hTwin : Twin s s')
    (p : Nat) :
    s'.peer p = s.peer p := by
  cases hTwin with
  | mk has get hHas hGet hQueues => rfl

theorem sent (hTwin : Twin s s') : s'.sent = s.sent := by
  cases hTwin with
  | mk has get hHas hGet hQueues => rfl

theorem dlNum (hTwin : Twin s s') : s'.dlNum = s.dlNum := by
  cases hTwin with
  | mk has get hHas hGet hQueues => rfl

theorem ulNum (hTwin : Twin s s') : s'.ulNum = s.ulNum := by
  cases hTwin with
  | mk has get hHas hGet hQueues => rfl

theorem maxConn
    (hTwin : Twin s s') : s'.maxConn = s.maxConn := by
  cases hTwin with
  | mk has get hHas hGet hQueues => rfl

theorem dlRemain
    (hTwin : Twin s s') : s'.dlRemain = s.dlRemain := by
  cases hTwin with
  | mk has get hHas hGet hQueues => rfl

theorem count
    (hTwin : Twin s s') :
    s'.peerlist.count = s.peerlist.count := by
  cases hTwin with
  | mk has get hHas hGet hQueues => rfl

/- The one of two branches that both servers take. -/
theorem ite
    {a a' b b' : PeerServer}
    {c : Prop}
    [Decidable c]
    (hPos : c → Twin a a')
    (hNeg : ¬ c → Twin b b') :
    Twin (if c then a else b) (if c then a' else b') := by
  by_cases hc : c
  · rw [if_pos hc, if_pos hc]
    exact hPos hc
  · rw [if_neg hc, if_neg hc]
    exact hNeg hc

/- A new value of a peer. -/
theorem setPeer
    (hTwin : Twin s s')
    {p : Nat}
    {pr : Peer}
    (hQueue : ∀ hash ∈ pr.hasqueue, IsHashString hash) :
    Twin (s.setPeer p pr) (s'.setPeer p pr) := by
  cases hTwin with
  | mk has get hHas hGet hQueues =>
      refine .mk has get hHas hGet ?_
      intro q hash hMem
      rw [setPeer_peer] at hMem
      by_cases hSame : q = p
      · rw [if_pos hSame] at hMem
        exact hQueue hash hMem
      · rw [if_neg hSame] at hMem
        exact hQueues q hash hMem

theorem setState
    (hTwin : Twin s s')
    (i : Nat)
    (st : ChunkState) :
    Twin (s.setState i st) (s'.setState i st) := by
  cases hTwin with
  | mk has get hHas hGet hQueues =>
      exact .mk has (get.setState i st) hHas
        (hGet.setState i st) hQueues

/- The same datagrams are sent. -/
theorem setSent
    (hTwin : Twin s s')
    {sent sent' : List Datagram}
    (hSent : sent = sent') :
    Twin { s with sent := s.sent ++ sent }
      { s' with sent := s'.sent ++ sent' } := by
  subst hSent
  cases hTwin with
  | mk has get hHas hGet hQueues =>
      exact .mk has get hHas hGet hQueues

theorem send
    (hTwin : Twin s s')
    (env : Env)
    (pp : PktParam) :
    Twin (s.send env pp) (s'.send env pp) := by
  apply hTwin.setSent
  unfold sendPacket
  rw [buildPackets_same_call hTwin.getchunks, hTwin.count]

/- A call for the chunks of a list. -/
theorem sendList
    (hTwin : Twin s s')
    {c c' : ChunkList}
    (hList : SameList c c')
    (env : Env)
    (pp : PktParam) :
    Twin (s.send env { pp with c := some c })
      (s'.send env { pp with c := some c' }) := by
  apply hTwin.setSent
  unfold sendPacket
  rw [buildPackets_same hTwin.getchunks hList env.stack pp,
    hTwin.count]
  rfl

theorem sendAll
    (hTwin : Twin s s')
    (env : Env)
    (pps : List PktParam) :
    Twin (s.sendAll env pps) (s'.sendAll env pps) := by
  apply hTwin.setSent
  apply List.flatMap_congr
  intro pp _
  unfold sendPacket
  rw [buildPackets_same_call hTwin.getchunks, hTwin.count]

theorem setDlNum
    (hTwin : Twin s s')
    (n : Int) :
    Twin { s with dlNum := n } { s' with dlNum := n } := by
  cases hTwin with
  | mk has get hHas hGet hQueues =>
      exact .mk has get hHas hGet hQueues

theorem setUlNum
    (hTwin : Twin s s')
    (n : Int) :
    Twin { s with ulNum := n } { s' with ulNum := n } := by
  cases hTwin with
  | mk has get hHas hGet hQueues =>
      exact .mk has get hHas hGet hQueues

end Twin

end BtPeer

------------------------------------------------------------
-- Helpers
------------------------------------------------------------

namespace BtPeer

open PeerServer

variable {s s' : PeerServer}

theorem sendWhohas_twin
    (hTwin : Twin s s')
    (env : Env) :
    Twin (sendWhohas env s) (sendWhohas env s') :=
  hTwin.sendList hTwin.getchunks env
    (whohasParam s.getchunks)

theorem isHashString_getHash
    (pkt : Packet)
    (n : Nat) :
    IsHashString (pkt.getHash n) :=
  ⟨_, rfl⟩

/- The same hashes are offered. -/
theorem ihaveLoop_same
    {cl cl' : ChunkList}
    (hList : SameList cl cl')
    (pkt : Packet)
    (k i cnt : Nat)
    (chunks : Nat → ChunkLine) :
    ihaveLoop cl pkt k i cnt chunks =
      ihaveLoop cl' pkt k i cnt chunks := by
  induction k generalizing i cnt chunks with
  | zero => rfl
  | succ k ih =>
      unfold ihaveLoop
      dsimp only
      rw [hash2Index_same hList (isHashString_getHash pkt i),
        ih, ih]

/- The answer is the same. -/
theorem sendIhave_twin
    (hTwin : Twin s s')
    (env : Env)
    (pkt : Packet)
    (p : Nat) :
    Twin (sendIhave env s pkt p) (sendIhave env s' pkt p) := by
  have hLoop :=
    ihaveLoop_same hTwin.haschunks pkt pkt.getChunkCnt 0 0
      s.ihavechunks.chunks
  have hAnswer : ihaveAnswer s pkt = ihaveAnswer s' pkt := by
    cases hTwin with
    | mk has get hHas hGet hQueues =>
        have hCount :
            (ihaveAnswer s pkt).count =
              (ihaveAnswer (s.respell has get) pkt).count :=
          congrArg
            (fun out : Nat × (Nat → ChunkLine) =>
              if out.1 = 0 then s.ihavechunks.count else out.1)
            hLoop
        have hChunks :
            (ihaveAnswer s pkt).chunks =
              (ihaveAnswer (s.respell has get) pkt).chunks :=
          congrArg Prod.snd hLoop
        generalize ihaveAnswer s pkt = answer
          at hCount hChunks ⊢
        generalize
          ihaveAnswer (s.respell has get) pkt = answer'
            at hCount hChunks ⊢
        cases answer
        cases answer'
        dsimp only at hCount hChunks
        subst hCount hChunks
        rfl
  have hKept :
      Twin { s with ihavechunks := ihaveAnswer s pkt }
        { s' with ihavechunks := ihaveAnswer s' pkt } := by
    rw [← hAnswer]
    cases hTwin with
    | mk has get hHas hGet hQueues =>
        exact .mk has get hHas hGet hQueues
  have hOld : s'.ihavechunks = s.ihavechunks := by
    cases hTwin with
    | mk has get hHas hGet hQueues => rfl
  unfold sendIhave
  dsimp only
  rw [hOld, ← hLoop]
  apply Twin.ite
  · intro _
    exact hKept
  · intro _
    rw [← hAnswer] at hKept ⊢
    exact hKept.send env _

/- The same queue is built. -/
theorem parseDownload_twin
    (hTwin : Twin s s')
    (env : Env)
    (pkt : Packet)
    (p : Nat) :
    Twin (parseDownload env s pkt p).1
        (parseDownload env s' pkt p).1 ∧
      (parseDownload env s' pkt p).2 =
        (parseDownload env s pkt p).2 := by
  unfold parseDownload
  cases hLoop :
      parseDownloadLoop env pkt pkt.getChunkCnt 0 [] with
  | none =>
      dsimp only
      rw [hTwin.peer p]
      refine ⟨hTwin.setPeer ?_, rfl⟩
      intro hash hMem
      cases hMem
  | some dq =>
      dsimp only
      rw [hTwin.peer p]
      refine ⟨hTwin.setPeer ?_, rfl⟩
      intro hash hMem
      rw [(parseDownloadLoop_hashes_iff.mp hLoop).2] at hMem
      rcases List.mem_map.mp hMem with ⟨n, _, rfl⟩
      exact isHashString_getHash pkt n

/- The same chunk is selected. -/
theorem findUnfetchedChunk_twin
    (hTwin : Twin s s')
    (p : Nat) :
    Twin (findUnfetchedChunk s p).1
        (findUnfetchedChunk s' p).1 ∧
      (findUnfetchedChunk s' p).2 =
        (findUnfetchedChunk s p).2 := by
  have hSearch :=
    searchQueue_same hTwin.getchunks (hTwin.queues p)
  unfold findUnfetchedChunk
  rw [hTwin.peer p, ← hSearch]
  cases hFound :
      searchQueue s.getchunks (s.peer p).hasqueue with
  | none => exact ⟨hTwin, rfl⟩
  | some found =>
      rcases found with ⟨i, dq⟩
      refine ⟨hTwin.setPeer ?_, rfl⟩
      intro hash hMem
      exact
        hTwin.queues p hash
          (searchQueue_rest hFound hash hMem)

theorem sendGet_twin
    (hTwin : Twin s s')
    (env : Env)
    (p i : Nat) :
    Twin (sendGet env s p i) (sendGet env s' p i) := by
  have hState := hTwin.setState i .fetching
  exact hState.sendList hState.getchunks env
    (getParam (s.setState i .fetching).getchunks p i)

theorem startDownload_twin
    (hTwin : Twin s s')
    (env : Env)
    (p i : Nat) :
    Twin (startDownload env s p i)
      (startDownload env s' p i) := by
  have hName : s'.dlFilename = s.dlFilename := by
    cases hTwin with
    | mk has get hHas hGet hQueues => rfl
  unfold startDownload
  dsimp only
  rw [hTwin.peer p, hName]
  have hPeer :
      Twin
        (s.setPeer p
          { s.peer p with
            dl := dlInit (env.dlInitTs p) p i s.dlFilename })
        (s'.setPeer p
          { s.peer p with
            dl :=
              dlInit (env.dlInitTs p) p i s.dlFilename }) :=
    hTwin.setPeer (hTwin.queues p)
  rw [hPeer.dlNum]
  exact hPeer.setDlNum _

theorem trySendGet_twin
    (hTwin : Twin s s')
    (env : Env)
    (p : Nat) :
    Twin (trySendGet env s p) (trySendGet env s' p) := by
  have hFind := findUnfetchedChunk_twin hTwin p
  unfold trySendGet
  generalize findUnfetchedChunk s p = out at hFind ⊢
  generalize findUnfetchedChunk s' p = out' at hFind ⊢
  rcases out with ⟨s₁, found⟩
  rcases out' with ⟨s₁', found'⟩
  rcases hFind with ⟨hFirst, rfl⟩
  cases found' with
  | none => exact hFirst
  | some i =>
      dsimp only
      have hGet := sendGet_twin hFirst env p i
      rw [hGet.peer p]
      apply startDownload_twin
      exact hGet.setPeer (hGet.queues p)

theorem refreshLoop_twin
    (env : Env)
    (k i : Nat)
    (hTwin : Twin s s') :
    Twin (refreshLoop env k i s) (refreshLoop env k i s') := by
  induction k generalizing i s s' with
  | zero => exact hTwin
  | succ k ih =>
      unfold refreshLoop
      rw [hTwin.maxConn, hTwin.dlNum, hTwin.peer i]
      apply Twin.ite
      · intro _
        exact hTwin
      · intro _
        apply Twin.ite
        · intro _
          exact ih (i + 1) hTwin
        · intro _
          exact ih (i + 1) (trySendGet_twin hTwin env i)

theorem refreshChunkDownload_twin
    (hTwin : Twin s s')
    (env : Env) :
    Twin (refreshChunkDownload env s)
      (refreshChunkDownload env s') := by
  have hLoop :=
    refreshLoop_twin env s.peerlist.count 0 hTwin
  unfold refreshChunkDownload askAgain
  rw [hTwin.count]
  generalize refreshLoop env s.peerlist.count 0 s = s₁
    at hLoop ⊢
  generalize refreshLoop env s.peerlist.count 0 s' = s₁'
    at hLoop ⊢
  have hLast : s₁'.lastWhohas = s₁.lastWhohas := by
    cases hLoop with
    | mk has get hHas hGet hQueues => rfl
  rw [hLoop.dlNum, hLoop.dlRemain, hLast]
  apply Twin.ite
  · intro _
    have hAsked := sendWhohas_twin hLoop env
    generalize sendWhohas env s₁ = s₂ at hAsked ⊢
    generalize sendWhohas env s₁' = s₂' at hAsked ⊢
    cases hAsked with
    | mk has get hHas hGet hQueues =>
        exact .mk has get hHas hGet hQueues
  · intro _
    exact hLoop

end BtPeer

------------------------------------------------------------
-- Transfers
------------------------------------------------------------

namespace BtPeer

open PeerServer

variable {s s' : PeerServer}

/- A new value of peer `p` with its old queue. -/
theorem Twin.setPeer_same
    (hTwin : Twin s s')
    {p : Nat}
    {pr : Peer}
    (hQueue : pr.hasqueue = (s.peer p).hasqueue) :
    Twin (s.setPeer p pr) (s'.setPeer p pr) := by
  apply hTwin.setPeer
  rw [hQueue]
  exact hTwin.queues p

theorem updateDownload_twin
    (hTwin : Twin s s')
    (env : Env)
    (p : Nat)
    (pkt : Packet) :
    Twin (updateDownload env s p pkt)
      (updateDownload env s' p pkt) := by
  unfold updateDownload
  rw [hTwin.peer p]
  rcases dlRecv env.rttNow (env.dlTs p) (s.peer p).dl pkt with
    ⟨dl, sent, ok⟩
  apply Twin.sendAll
  exact hTwin.setPeer_same rfl

theorem killDownload_twin
    (hTwin : Twin s s')
    (dl : Download) :
    Twin (killDownload s dl) (killDownload s' dl) := by
  have hState := hTwin.setState dl.getIndex .unfetched
  unfold killDownload
  dsimp only
  rw [hState.dlNum]
  exact hState.setDlNum _

/- The same chunks pass the check. -/
theorem checkHashSucceed_twin
    (hTwin : Twin s s')
    (sha1 : List Byte → Nat → Byte)
    (dl : Download) :
    checkHashSucceed sha1 s dl = checkHashSucceed sha1 s' dl := by
  have hHash := (hTwin.getchunks.line dl.getIndex).sha1
  unfold checkHashSucceed
  apply decide_eq_decide.mpr
  rw [eq_comm, hHash.take_iff ⟨_, rfl⟩, eq_comm]

/- And are written to the same place. -/
theorem dlSaveBuffer_twin
    (hTwin : Twin s s')
    (env : Env)
    (dl : Download) :
    Twin (dlSaveBuffer env s dl).1
      (dlSaveBuffer env s' dl).1 := by
  have hSeek : seekOffset s' dl = seekOffset s dl := by
    unfold seekOffset
    rw [(hTwin.getchunks.line dl.getIndex).id]
  have hPosition :
      savePosition env s' dl = savePosition env s dl := by
    unfold savePosition
    rw [hSeek]
  have hWritten :
      Twin (writeBuffer env s dl) (writeBuffer env s' dl) := by
    unfold writeBuffer
    rw [hPosition]
    cases hTwin with
    | mk has get hHas hGet hQueues =>
        exact .mk has get hHas hGet hQueues
  unfold dlSaveBuffer
  by_cases hOpen : env.openOk = true
  · rw [if_pos hOpen, if_pos hOpen]
    dsimp only
    by_cases hFull : btChunkSize ≤ env.written
    · rw [if_pos hFull, if_pos hFull]
      have hMarked :=
        hWritten.setState dl.getIndex .fetched
      unfold markFetched
      generalize
        (writeBuffer env s dl).setState dl.getIndex .fetched =
          s₁ at hMarked ⊢
      generalize
        (writeBuffer env s' dl).setState dl.getIndex .fetched =
          s₁' at hMarked ⊢
      cases hMarked with
      | mk has get hHas hGet hQueues =>
          exact .mk has get hHas hGet hQueues
    · rw [if_neg hFull, if_neg hFull]
      exact hWritten
  · rw [if_neg hOpen, if_neg hOpen]
    exact hTwin

theorem completeDownload_twin
    (hTwin : Twin s s')
    (sha1 : List Byte → Nat → Byte)
    (env : Env)
    (p : Nat) :
    Twin (completeDownload sha1 env s p)
      (completeDownload sha1 env s' p) := by
  unfold completeDownload
  dsimp only
  have hNum := hTwin.setDlNum (s.dlNum - 1)
  rw [hTwin.dlNum]
  generalize ({ s with dlNum := s.dlNum - 1 } : PeerServer) =
    s₁ at hNum ⊢
  generalize ({ s' with dlNum := s.dlNum - 1 } : PeerServer) =
    s₁' at hNum ⊢
  have hEnded :
      Twin
        (s₁.setPeer p { s₁.peer p with isDownloading := false })
        (s₁'.setPeer p
          { s₁.peer p with isDownloading := false }) :=
    hNum.setPeer_same rfl
  rw [hNum.peer p]
  generalize
    s₁.setPeer p { s₁.peer p with isDownloading := false } =
      s₂ at hEnded ⊢
  generalize
    s₁'.setPeer p { s₁.peer p with isDownloading := false } =
      s₂' at hEnded ⊢
  rw [hEnded.peer p,
    ← checkHashSucceed_twin hEnded sha1 (s₂.peer p).dl]
  generalize (s₂.peer p).dl = dl
  have hSaved :
      Twin
        (if checkHashSucceed sha1 s₂ dl then
          (dlSaveBuffer env s₂ dl).1
        else s₂)
        (if checkHashSucceed sha1 s₂ dl then
          (dlSaveBuffer env s₂' dl).1
        else s₂') := by
    apply Twin.ite
    · intro _
      exact dlSaveBuffer_twin hEnded env dl
    · intro _
      exact hEnded
  generalize
    (if checkHashSucceed sha1 s₂ dl then
      (dlSaveBuffer env s₂ dl).1 else s₂) = s₃
        at hSaved ⊢
  generalize
    (if checkHashSucceed sha1 s₂ dl then
      (dlSaveBuffer env s₂' dl).1 else s₂') = s₃'
        at hSaved ⊢
  rw [(hSaved.getchunks.line dl.getIndex).state]
  apply Twin.ite
  · intro _
    exact hSaved.setState dl.getIndex .unfetched
  · intro _
    exact hSaved

theorem loadData_twin
    (hTwin : Twin s s')
    (env : Env)
    (hasIndex : Nat) :
    loadData env s' hasIndex = loadData env s hasIndex := by
  have hOffset :
      getChunkOffset s' hasIndex = getChunkOffset s hasIndex := by
    unfold getChunkOffset
    rw [(hTwin.haschunks.line hasIndex).id]
  have hMaster : s'.masterChunk = s.masterChunk := by
    cases hTwin with
    | mk has get hHas hGet hQueues => rfl
  unfold loadData
  rw [hOffset, hMaster]

theorem startUpload_twin
    (hTwin : Twin s s')
    (env : Env)
    (p hasIndex : Nat) :
    Twin (startUpload env s p hasIndex).1
      (startUpload env s' p hasIndex).1 := by
  unfold startUpload
  rw [loadData_twin hTwin, hTwin.peer p]
  rcases ulInit p hasIndex (loadData env s hasIndex) with
    ⟨ul, ok⟩
  cases ok with
  | false => exact hTwin.setPeer_same rfl
  | true =>
      dsimp only
      rcases ulSend (env.sendTs p) ul with ⟨ul', sent, ok⟩
      have hPeer :
          Twin (s.setPeer p { s.peer p with ul := ul' })
            (s'.setPeer p { s.peer p with ul := ul' }) :=
        hTwin.setPeer_same rfl
      have hSent := hPeer.sendAll env sent
      cases ok with
      | false => exact hSent
      | true =>
          dsimp only
          rw [if_pos rfl, if_pos rfl, hSent.ulNum]
          exact hSent.setUlNum _

theorem updateUpload_twin
    (hTwin : Twin s s')
    (env : Env)
    (p : Nat)
    (pkt : Packet) :
    Twin (updateUpload env s p pkt)
      (updateUpload env s' p pkt) := by
  unfold updateUpload
  dsimp only
  rw [hTwin.peer p]
  rcases ulSend (env.sendTs p)
      (ulHandleAck env.rttNow (s.peer p).ul pkt.ack) with
    ⟨ul, sent, ok⟩
  apply Twin.sendAll
  exact hTwin.setPeer_same rfl

theorem finishUpload_twin
    (hTwin : Twin s s')
    (p : Nat) :
    Twin (finishUpload s p) (finishUpload s' p) := by
  have hPeer :
      Twin
        (s.setPeer p
          { s.peer p with ul := ulDeinit (s.peer p).ul })
        (s'.setPeer p
          { s.peer p with ul := ulDeinit (s.peer p).ul }) :=
    hTwin.setPeer_same rfl
  unfold finishUpload
  dsimp only
  rw [hTwin.peer p, hPeer.ulNum]
  exact hPeer.setUlNum _

end BtPeer

------------------------------------------------------------
-- Packets
------------------------------------------------------------

namespace BtPeer

open PeerServer

variable {s s' : PeerServer}

/- Peer `p` of both servers is marked as alive. -/
theorem raise_twin
    (hTwin : Twin s s')
    (p : Nat) :
    Twin (s.setPeer p { s.peer p with isAlive := true })
      (s'.setPeer p { s'.peer p with isAlive := true }) := by
  rw [hTwin.peer p]
  exact hTwin.setPeer_same rfl

theorem handleWhohas_twin
    (hTwin : Twin s s')
    (env : Env)
    (pkt : Packet)
    (p : Nat) :
    Twin (handleWhohas env s pkt p)
      (handleWhohas env s' pkt p) := by
  have hRaised := raise_twin hTwin p
  unfold handleWhohas
  rw [hTwin.maxConn, hTwin.ulNum]
  apply Twin.ite
  · intro _
    exact hTwin
  · intro _
    dsimp only
    rw [hRaised.peer p]
    apply Twin.ite
    · intro _
      exact hRaised
    · intro _
      exact sendIhave_twin hRaised env pkt p

theorem handleIhave_twin
    (hTwin : Twin s s')
    (env : Env)
    (pkt : Packet)
    (p : Nat) :
    Twin (handleIhave env s pkt p)
      (handleIhave env s' pkt p) := by
  have hRaised := raise_twin hTwin p
  unfold handleIhave
  dsimp only
  generalize
    s.setPeer p { s.peer p with isAlive := true } = s₁
      at hRaised ⊢
  generalize
    s'.setPeer p { s'.peer p with isAlive := true } = s₁'
      at hRaised ⊢
  rw [hRaised.peer p]
  apply Twin.ite
  · intro _
    exact hRaised
  · intro _
    have hParse := parseDownload_twin hRaised env pkt p
    generalize parseDownload env s₁ pkt p = out at hParse ⊢
    generalize parseDownload env s₁' pkt p = out' at hParse ⊢
    rcases out with ⟨s₂, ok⟩
    rcases out' with ⟨s₂', ok'⟩
    rcases hParse with ⟨hParsed, rfl⟩
    cases ok' with
    | false => exact hParsed
    | true =>
        dsimp only at hParsed ⊢
        rw [hParsed.maxConn, hParsed.dlNum]
        apply Twin.ite
        · intro _
          exact hParsed
        · intro _
          exact trySendGet_twin hParsed env p

/- The same chunk is served. -/
theorem handleGet_twin
    (hTwin : Twin s s')
    (env : Env)
    (pkt : Packet)
    (p : Nat) :
    Twin (handleGet env s pkt p) (handleGet env s' pkt p) := by
  have hIndex :=
    hash2Index_same hTwin.haschunks
      (isHashString_getHash pkt 0)
  unfold handleGet
  rw [hTwin.peer p, hTwin.maxConn, hTwin.ulNum, ← hIndex]
  apply Twin.ite
  · intro _
    exact hTwin
  · intro _
    apply Twin.ite
    · intro _
      exact hTwin
    · intro _
      cases hash2Index s.haschunks (pkt.getHash 0) with
      | none => exact hTwin
      | some hasIndex =>
          dsimp only
          have hFree :
              Twin
                (if (s.peer p).isUploading then
                  finishUpload s p
                else s)
                (if (s.peer p).isUploading then
                  finishUpload s' p
                else s') := by
            apply Twin.ite
            · intro _
              exact finishUpload_twin hTwin p
            · intro _
              exact hTwin
          have hStarted :=
            startUpload_twin hFree env p hasIndex
          rw [hStarted.peer p]
          exact hStarted.setPeer_same rfl

theorem handleData_twin
    (hTwin : Twin s s')
    (sha1 : List Byte → Nat → Byte)
    (env : Env)
    (pkt : Packet)
    (p : Nat) :
    Twin (handleData sha1 env s pkt p)
      (handleData sha1 env s' pkt p) := by
  have hUpdate := updateDownload_twin hTwin env p pkt
  unfold handleData
  rw [hTwin.peer p]
  apply Twin.ite
  · intro _
    exact hTwin
  · intro _
    dsimp only
    rw [hUpdate.peer p]
    apply Twin.ite
    · intro _
      have hDone := completeDownload_twin hUpdate sha1 env p
      rw [hDone.dlRemain]
      apply Twin.ite
      · intro _
        exact refreshChunkDownload_twin hDone env
      · intro _
        exact hDone
    · intro _
      exact hUpdate

theorem handleAck_twin
    (hTwin : Twin s s')
    (env : Env)
    (pkt : Packet)
    (p : Nat) :
    Twin (handleAck env s pkt p) (handleAck env s' pkt p) := by
  have hUpdate := updateUpload_twin hTwin env p pkt
  unfold handleAck
  rw [hTwin.peer p]
  apply Twin.ite
  · intro _
    exact hTwin
  · intro _
    dsimp only
    rw [hUpdate.peer p]
    apply Twin.ite
    · intro _
      have hFree := finishUpload_twin hUpdate p
      rw [hFree.peer p]
      exact hFree.setPeer_same rfl
    · intro _
      exact hUpdate

theorem parsePacket_twin
    (hTwin : Twin s s')
    (sha1 : List Byte → Nat → Byte)
    (env : Env)
    (pkt : Packet)
    (sender : Address) :
    Twin (parsePacket sha1 env s pkt sender)
      (parsePacket sha1 env s' pkt sender) := by
  have hIndex : addr2Index s' sender = addr2Index s sender := by
    cases hTwin with
    | mk has get hHas hGet hQueues => rfl
  unfold parsePacket
  rw [hIndex]
  cases addr2Index s sender with
  | none => exact hTwin
  | some p =>
      dsimp only
      cases hType : PacketType.ofCode pkt.type with
      | none => exact hTwin
      | some t =>
          cases t with
          | whohas => exact handleWhohas_twin hTwin env pkt p
          | ihave => exact handleIhave_twin hTwin env pkt p
          | get => exact handleGet_twin hTwin env pkt p
          | data => exact handleData_twin hTwin sha1 env pkt p
          | ack => exact handleAck_twin hTwin env pkt p
          | denied => exact hTwin

end BtPeer

------------------------------------------------------------
-- Timeouts
------------------------------------------------------------

namespace BtPeer

open PeerServer

variable {s s' : PeerServer}

theorem checkDownload_twin
    (hTwin : Twin s s')
    (env : Env)
    (i : Nat) :
    Twin (checkDownload env s i).1 (checkDownload env s' i).1 ∧
      (checkDownload env s' i).2 =
        (checkDownload env s i).2 := by
  unfold checkDownload
  rw [hTwin.peer i]
  rcases dlCheckTimeout (env.dlNow i) (env.dlTs i)
      (s.peer i).dl with ⟨dl, sent, cnt⟩
  refine ⟨?_, rfl⟩
  apply Twin.sendAll
  exact hTwin.setPeer_same rfl

theorem checkUpload_twin
    (hTwin : Twin s s')
    (env : Env)
    (i : Nat) :
    Twin (checkUpload env s i).1 (checkUpload env s' i).1 ∧
      (checkUpload env s' i).2 = (checkUpload env s i).2 := by
  unfold checkUpload
  rw [hTwin.peer i]
  rcases ulCheckTimeout (env.ulNow i) (env.sendTs i)
      (s.peer i).ul with ⟨ul, sent, cnt⟩
  refine ⟨?_, rfl⟩
  apply Twin.sendAll
  exact hTwin.setPeer_same rfl

theorem die_twin
    (hTwin : Twin s s')
    (i : Nat) :
    Twin (s.setPeer i (die (s.peer i)))
      (s'.setPeer i (die (s'.peer i))) := by
  rw [hTwin.peer i]
  exact hTwin.setPeer_same rfl

theorem abortDownload_twin
    (hTwin : Twin s s')
    (i : Nat) :
    Twin (abortDownload s i) (abortDownload s' i) := by
  unfold abortDownload
  dsimp only
  rw [hTwin.peer i]
  have hKilled := killDownload_twin hTwin (s.peer i).dl
  rw [hKilled.peer i]
  apply die_twin
  apply Twin.ite
  · intro _
    exact finishUpload_twin hKilled i
  · intro _
    exact hKilled

theorem abortUpload_twin
    (hTwin : Twin s s')
    (i : Nat) :
    Twin (abortUpload s i) (abortUpload s' i) := by
  have hFree := finishUpload_twin hTwin i
  unfold abortUpload
  dsimp only
  rw [hFree.peer i]
  apply die_twin
  apply Twin.ite
  · intro _
    exact killDownload_twin hFree _
  · intro _
    exact hFree

theorem checkDownloading_twin
    (hTwin : Twin s s')
    (env : Env)
    (i : Nat) :
    Twin (checkDownloading env s i)
      (checkDownloading env s' i) := by
  have hCheck := checkDownload_twin hTwin env i
  unfold checkDownloading
  rw [hTwin.peer i]
  generalize checkDownload env s i = out at hCheck ⊢
  generalize checkDownload env s' i = out' at hCheck ⊢
  rcases out with ⟨s₁, cnt⟩
  rcases out' with ⟨s₁', cnt'⟩
  rcases hCheck with ⟨hChecked, rfl⟩
  dsimp only at hChecked ⊢
  apply Twin.ite
  · intro _
    apply Twin.ite
    · intro _
      exact abortDownload_twin hChecked i
    · intro _
      exact hChecked
  · intro _
    exact hTwin

theorem checkUploading_twin
    (hTwin : Twin s s')
    (env : Env)
    (i : Nat) :
    Twin (checkUploading env s i)
      (checkUploading env s' i) := by
  have hCheck := checkUpload_twin hTwin env i
  unfold checkUploading
  rw [hTwin.peer i]
  generalize checkUpload env s i = out at hCheck ⊢
  generalize checkUpload env s' i = out' at hCheck ⊢
  rcases out with ⟨s₁, cnt⟩
  rcases out' with ⟨s₁', cnt'⟩
  rcases hCheck with ⟨hChecked, rfl⟩
  dsimp only at hChecked ⊢
  apply Twin.ite
  · intro _
    apply Twin.ite
    · intro _
      exact abortUpload_twin hChecked i
    · intro _
      exact hChecked
  · intro _
    exact hTwin

theorem checkLoop_twin
    (env : Env)
    (k i : Nat)
    (hTwin : Twin s s') :
    Twin (checkLoop env k i s) (checkLoop env k i s') := by
  induction k generalizing i s s' with
  | zero => exact hTwin
  | succ k ih =>
      apply ih
      unfold checkPeer
      rw [hTwin.peer i]
      apply Twin.ite
      · intro _
        apply checkUploading_twin
        exact checkDownloading_twin hTwin env i
      · intro _
        exact hTwin

theorem checkAllTimeout_twin
    (hTwin : Twin s s')
    (env : Env) :
    Twin (checkAllTimeout env s) (checkAllTimeout env s') := by
  have hLoop := checkLoop_twin env s.peerlist.count 0 hTwin
  unfold checkAllTimeout
  dsimp only
  rw [hTwin.count, hLoop.dlRemain]
  apply Twin.ite
  · intro _
    exact refreshChunkDownload_twin hLoop env
  · intro _
    exact hLoop

end BtPeer

------------------------------------------------------------
-- Events In Two Spellings
------------------------------------------------------------

namespace BtPeer

open PeerServer

/- The same event, with a command's file in two spellings. -/
inductive TwinEvent : ServerEvent → ServerEvent → Prop where
  | packet
      (env : Env)
      (pkt : Packet)
      (sender : Address) :
      TwinEvent (.packet env pkt sender)
        (.packet env pkt sender)
  | timeout
      (env : Env) :
      TwinEvent (.timeout env) (.timeout env)
  | command
      (env : Env)
      (chunkfile outputfile : CString)
      {text text' : Option (List Char)}
      (hFile : SameFile text text') :
      TwinEvent (.command env chunkfile outputfile text)
        (.command env chunkfile outputfile text')

/- What a command makes of the file is spelled alike. -/
def SpelledAlike
    (s s' : PeerServer) :
    ServerEvent → ServerEvent → Prop
| .command _ _ _ text, .command _ _ _ text' =>
    ∀ cl cl', parseChunk s.getchunks text = some cl →
      parseChunk s'.getchunks text' = some cl' →
        SameCase cl cl'
| _, _ => True

theorem processGet_twin
    {s s' : PeerServer}
    (hTwin : Twin s s')
    (env : Env)
    (chunkfile outputfile : CString)
    {text text' : Option (List Char)}
    (hFile : SameFile text text')
    (hCase :
      ∀ cl cl', parseChunk s.getchunks text = some cl →
        parseChunk s'.getchunks text' = some cl' →
          SameCase cl cl') :
    Twin (processGet env s chunkfile outputfile text)
      (processGet env s' chunkfile outputfile text') := by
  have hParse :=
    parseChunk_same hTwin.getchunks hFile hCase
  unfold processGet
  apply Twin.ite
  · intro _
    exact hTwin
  · intro _
    apply Twin.ite
    · intro _
      exact hTwin
    · intro _
      dsimp only
      generalize parseChunk s.getchunks text = out
        at hParse ⊢
      generalize parseChunk s'.getchunks text' = out'
        at hParse ⊢
      cases hTwin with
      | mk has get hHas hGet hQueues =>
          cases hParse with
          | none => exact .mk has get hHas hGet hQueues
          | @some cl cl' hList =>
              have hNamed :
                  Twin
                    { s with
                      dlFilename := outputfile
                      getchunkFile := chunkfile
                      getchunks := cl
                      dlRemain := cl.count }
                    { s with
                      dlFilename := outputfile
                      getchunkFile := chunkfile
                      haschunks := has
                      getchunks := cl'
                      dlRemain := cl'.count } := by
                rw [← hList.count]
                exact .mk has cl' hHas hList hQueues
              have hAsked := sendWhohas_twin hNamed env
              dsimp only [respell]
              generalize sendWhohas env _ = s₁ at hAsked ⊢
              generalize sendWhohas env _ = s₁' at hAsked ⊢
              cases hAsked with
              | mk has get hHas hGet hQueues =>
                  exact .mk has get hHas hGet hQueues

/- One event keeps the two runs together. -/
theorem step_twin
    {s s' : PeerServer}
    (hTwin : Twin s s')
    (sha1 : List Byte → Nat → Byte)
    {e e' : ServerEvent}
    (hEvent : TwinEvent e e')
    (hSpelled : SpelledAlike s s' e e') :
    Twin (s.step sha1 e) (s'.step sha1 e') := by
  cases hEvent with
  | packet env pkt sender =>
      apply Twin.ite
      · intro _
        exact parsePacket_twin hTwin sha1 env pkt sender
      · intro _
        exact hTwin
  | timeout env => exact checkAllTimeout_twin hTwin env
  | command env chunkfile outputfile hFile =>
      exact
        processGet_twin hTwin env chunkfile outputfile hFile
          hSpelled

end BtPeer

------------------------------------------------------------
-- Runs In Two Spellings
------------------------------------------------------------

namespace BtPeer

open PeerServer EventMachine

/- One event of each of two runs. -/
def twinStep
    (sha1 : List Byte → Nat → Byte)
    (ss : PeerServer × PeerServer)
    (es : ServerEvent × ServerEvent) :
    PeerServer × PeerServer :=
  (ss.1.step sha1 es.1, ss.2.step sha1 es.2)

/-
  The two servers have done the same so far, and offer,
  select, serve and accept the same chunks.
-/
structure SameChoices
    (sha1 : List Byte → Nat → Byte)
    (s s' : PeerServer) : Prop where
  sent : s.sent = s'.sent
  got : s.got = s'.got
  files : s.files = s'.files
  peerlist : s.peerlist = s'.peerlist
  offered :
    ∀ env pkt p,
      (sendIhave env s pkt p).sent =
        (sendIhave env s' pkt p).sent
  selected :
    ∀ p,
      (findUnfetchedChunk s p).2 = (findUnfetchedChunk s' p).2
  served :
    ∀ pkt : Packet,
      hash2Index s.haschunks (pkt.getHash 0) =
        hash2Index s'.haschunks (pkt.getHash 0)
  accepted :
    ∀ dl,
      checkHashSucceed sha1 s dl = checkHashSucceed sha1 s' dl

theorem Twin.sameChoices
    {s s' : PeerServer}
    (hTwin : Twin s s')
    (sha1 : List Byte → Nat → Byte) :
    SameChoices sha1 s s' := by
  have hOffered :
      ∀ env pkt p,
        (sendIhave env s pkt p).sent =
          (sendIhave env s' pkt p).sent :=
    fun env pkt p => (sendIhave_twin hTwin env pkt p).sent.symm
  have hSelected :
      ∀ p,
        (findUnfetchedChunk s p).2 =
          (findUnfetchedChunk s' p).2 :=
    fun p => (findUnfetchedChunk_twin hTwin p).2.symm
  have hServed :
      ∀ pkt : Packet,
        hash2Index s.haschunks (pkt.getHash 0) =
          hash2Index s'.haschunks (pkt.getHash 0) :=
    fun pkt =>
      hash2Index_same hTwin.haschunks
        (isHashString_getHash pkt 0)
  have hAccepted := checkHashSucceed_twin hTwin sha1
  cases hTwin with
  | mk has get hHas hGet hQueues =>
      exact
        ⟨rfl, rfl, rfl, rfl, hOffered, hSelected, hServed,
          hAccepted⟩

/- Servers that start from two spellings of one file. -/
theorem peerInit_twin
    (addrs : List Address)
    (masterChunk : Nat → Byte)
    {has has' : ChunkList}
    (hHas : SameList has has')
    (maxConn : Int)
    (files : CString → ByteMemory.SparseFile Byte) :
    Twin (peerInit addrs masterChunk has maxConn files)
      (peerInit addrs masterChunk has' maxConn files) := by
  apply Twin.mk has' ChunkList.zero hHas (SameList.refl _)
  intro p hash hMem
  cases hMem

/-
  Two runs on chunk files that differ in the case of the
  hashes only agree, when each hash is spelled in lower case
  in both files or in neither.
-/
theorem spelling_irrelevant
    (sha1 : List Byte → Nat → Byte)
    (addrs : List Address)
    (masterChunk : Nat → Byte)
    (maxConn : Int)
    (files : CString → ByteMemory.SparseFile Byte)
    {text text' : List Char}
    (hText : SameText text text')
    {has has' : ChunkList}
    (hHas : parseChunk ChunkList.zero (some text) = some has)
    (hHas' :
      parseChunk ChunkList.zero (some text') = some has')
    (hCase : SameCase has has')
    {es : List (ServerEvent × ServerEvent)}
    (hEvents : ∀ e ∈ es, TwinEvent e.1 e.2)
    (hSpelled :
      Along (twinStep sha1)
        (fun ss e => SpelledAlike ss.1 ss.2 e.1 e.2)
        (peerInit addrs masterChunk has maxConn files,
          peerInit addrs masterChunk has' maxConn files)
        es) :
    let ss :=
      run (twinStep sha1)
        (peerInit addrs masterChunk has maxConn files,
          peerInit addrs masterChunk has' maxConn files)
        es
    SameChoices sha1 ss.1 ss.2 := by
  have hList : SameList has has' := by
    have hFile : SameFile (some text) (some text') :=
      .some hText
    have hRel :=
      parseChunk_same (SameList.refl ChunkList.zero) hFile
        (by
          intro out out' hOut hOut'
          rw [hHas] at hOut
          rw [hHas'] at hOut'
          cases hOut
          cases hOut'
          exact hCase)
    rw [hHas, hHas'] at hRel
    cases hRel with
    | some hSame => exact hSame
  have hAlong :=
    along_and hSpelled (along_of_forall _ hEvents)
  apply Twin.sameChoices
  apply run_invariant_along (fun ss => Twin ss.1 ss.2) _ _
    hAlong
  · rintro ⟨s, s'⟩ ⟨e, e'⟩ hTwin ⟨hAlike, hEvent⟩
    exact step_twin hTwin sha1 hEvent hAlike
  · exact peerInit_twin addrs masterChunk hList maxConn files

/- One line with a hash of 40 letters. -/
def letterText (first rest : Char) : List Char :=
  ['0', ' '] ++ first :: List.replicate 39 rest

theorem letterText_same
    {first first' rest rest' : Char}
    (hFirst : SameDigit first first')
    (hRest : SameDigit rest rest') :
    SameText (letterText first rest)
      (letterText first' rest') := by
  have hOthers :
      ∀ n,
        SameText (List.replicate n rest)
          (List.replicate n rest') := by
    intro n
    induction n with
    | zero => exact .nil
    | succ n ih => exact .cons hRest ih
  exact
    .cons (Or.inl rfl)
      (.cons (Or.inl rfl) (.cons hFirst (hOthers 39)))

/- The list that a chunk file with the text is read as. -/
def listOf (text : List Char) : ChunkList :=
  (parseChunk ChunkList.zero (some text)).getD ChunkList.zero

/- A server with one peer and such a chunk file. -/
def servingText (text : List Char) : PeerServer :=
  peerInit [sampleAddress] (fun _ => 7) (listOf text) 1
    (fun _ _ => none)

/- A WHOHAS for the hash whose bytes are all 0xaa. -/
def letterPacket : Packet :=
  { samplePacket .whohas with
    payload := fun i => if i = 0 then 1 else 0xaa }

/- The two runs, with the same packet delivered in both. -/
def askedTwice (text text' : List Char) :
    PeerServer × PeerServer :=
  run (twinStep (fun _ _ => 0))
    (servingText text, servingText text')
    [(.packet sampleEnv letterPacket sampleAddress,
      .packet sampleEnv letterPacket sampleAddress)]

/- A hash with an upper-case letter is never matched. -/
theorem upper_not_isHashString
    {hash : CString}
    (hUpper : 'A' ∈ hash) :
    ¬ IsHashString hash := by
  rintro ⟨buf, rfl⟩
  exact binary2hex_lower hUpper (by decide)

/- Two files with upper-case letters in their one hash. -/
theorem spelling_irrelevant_upper_case :
    let ss :=
      askedTwice (letterText 'a' 'A') (letterText 'A' 'A')
    SameChoices (fun _ _ => 0) ss.1 ss.2 := by
  have hRead :
      (listOf (letterText 'a' 'A')).count = 1 ∧
        'A' ∈
          ((listOf (letterText 'a' 'A')).chunks 0).sha1.take
            sha1HashStrSize ∧
        'A' ∈
          ((listOf (letterText 'A' 'A')).chunks 0).sha1.take
            sha1HashStrSize := by
    decide +kernel
  rcases hRead with ⟨hCount, hUpper, hUpper'⟩
  have hCase :
      SameCase (listOf (letterText 'a' 'A'))
        (listOf (letterText 'A' 'A')) := by
    intro i hi
    have hFirst : i = 0 := by omega
    subst hFirst
    exact
      iff_of_false (upper_not_isHashString hUpper)
        (upper_not_isHashString hUpper')
  apply spelling_irrelevant (fun _ _ => 0) [sampleAddress]
    (fun _ => 7) 1 (fun _ _ => none)
    (letterText_same (by decide) (by decide)) rfl rfl hCase
  · intro e hMem
    rw [List.mem_singleton.mp hMem]
    exact .packet sampleEnv letterPacket sampleAddress
  · exact ⟨trivial, trivial⟩

/-
  The chunk of a file in lower case is offered, that of the
  same file in upper case is not.
-/
theorem upper_case_not_offered :
    SameText (letterText 'a' 'a') (letterText 'A' 'A') ∧
      let ss :=
        askedTwice (letterText 'a' 'a') (letterText 'A' 'A')
      ¬ SameChoices (fun _ _ => 0) ss.1 ss.2 := by
  have hAnswers :
      let ss :=
        askedTwice (letterText 'a' 'a') (letterText 'A' 'A')
      ss.1.sent.length = 1 ∧ ss.2.sent.length = 0 := by
    decide +kernel
  constructor
  · exact letterText_same (by decide) (by decide)
  · intro ss hSame
    have hLength := congrArg List.length hSame.sent
    rw [hAnswers.1, hAnswers.2] at hLength
    exact absurd hLength (by decide)

end BtPeer
