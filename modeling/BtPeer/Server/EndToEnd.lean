import BtPeer.Server.Integrity
import BtPeer.Server.Downloads
import BtPeer.Server.Network

/-
  What reaches the file. A download that hears only segments
  of some chunks stores nothing else, and between two servers
  these are the chunks that the one has asked the other for.

  Key definitions include:
    * `ServerEvent.BringsSegment`
    * `Swarm.requested`
    * `Swarm.AsksOnly`

  Key theorems include:
    * `Reassembly.run_holds`
    * `download_holds`
    * `step_saves`
    * `swarm_download_stores`
    * `swarm_chunk_exact`
-/

------------------------------------------------------------
-- Segments Of Some Chunks
------------------------------------------------------------

namespace BtPeer

open EventMachine PeerServer

/- A DATA packet brings a segment of one of the chunks. -/
def DownloadEvent.Brings
    (contents : Set (Nat → Byte)) : DownloadEvent → Prop
| .deliver _ _ pkt =>
    ∃ content ∈ contents, CarriesSegment content pkt
| .timeout _ _ => True

/- One event keeps what is stored. -/
theorem DownloadEvent.apply_holds
    {contents : Set (Nat → Byte)}
    {dl : Download}
    (hHolds : dl.Holds contents lastSeq)
    {move : DownloadEvent}
    (hBrings : move.Brings contents) :
    (move.apply dl).Holds contents lastSeq := by
  cases move with
  | deliver now ts pkt =>
      rcases hBrings with ⟨content, hMem, hCarries⟩
      exact (dlRecv_holds hHolds hCarries.dataLen
        (fun _ => ⟨content, hMem, hCarries, hCarries.last⟩)
        now ts).1
  | timeout now ts =>
      exact (dlCheckTimeout_holds hHolds now ts).1

/- All the events of a download keep it. -/
theorem Reassembly.run_holds
    {contents : Set (Nat → Byte)}
    {r : Reassembly}
    (hHolds : r.dl.Holds contents lastSeq)
    {moves : List DownloadEvent}
    (hBrings : ∀ move ∈ moves, move.Brings contents) :
    (run Reassembly.step r moves).dl.Holds contents
      lastSeq := by
  refine
    run_invariant_along
      (fun r : Reassembly => r.dl.Holds contents lastSeq)
      (fun r move hHolds hMove => ?_) hHolds
      (along_of_forall r hBrings)
  rw [Reassembly.step_dl]
  exact DownloadEvent.apply_holds hHolds hMove

/-
  The event is no DATA packet of peer `p`, or it brings a
  segment of one of the chunks.
-/
def ServerEvent.BringsSegment
    (start : PeerServer)
    (p : Nat)
    (contents : Set (Nat → Byte))
    (e : ServerEvent) : Prop :=
  ∀ move,
    e.dlEvent start p = some move → move.Brings contents

theorem ServerEvent.BringsSegment.mono
    {start : PeerServer}
    {p : Nat}
    {contents contents' : Set (Nat → Byte)}
    (hMore : contents ⊆ contents')
    {e : ServerEvent}
    (hBrings : e.BringsSegment start p contents) :
    e.BringsSegment start p contents' := by
  intro move hMove
  have hOld := hBrings move hMove
  cases move with
  | deliver now ts pkt =>
      rcases hOld with ⟨content, hMem, hCarries⟩
      exact ⟨content, hMore hMem, hCarries⟩
  | timeout now ts => trivial

/-
  The download from a peer stores only segments of the chunks
  that the peer has sent segments of.
-/
theorem download_holds
    (sha1 : List Byte → Nat → Byte)
    (addrs : List Address)
    (masterChunk : Nat → Byte)
    (haschunks : ChunkList)
    (maxConn : Int)
    (files : CString → ByteMemory.SparseFile Byte)
    {es : List ServerEvent}
    {p : Nat}
    (hPeer : p < addrs.length)
    {contents : Set (Nat → Byte)} :
    let start :=
      peerInit addrs masterChunk haschunks maxConn files
    let s := run (PeerServer.step sha1) start es
    (∀ e ∈ es, e.BringsSegment start p contents) →
      (s.peer p).isDownloading = true →
      (s.peer p).dl.Holds contents lastSeq := by
  intro start s hBrings hDownloading
  rcases (run_downloads sha1 addrs masterChunk haschunks
      maxConn files es hPeer).run hDownloading with
    ⟨before, since, now, getIndex, filename, hEvents, _, hRun⟩
  have hStart :
      (Reassembly.start now p getIndex filename).dl.Holds
        contents lastSeq :=
    (dlInit_holds contents now p getIndex filename).mono
      (Nat.zero_le _) (Nat.le_refl _)
  have hEnd :=
    @Reassembly.run_holds contents _ hStart
      (since.filterMap (ServerEvent.dlEvent start p)) (by
        intro move hMem
        rcases List.mem_filterMap.mp hMem with ⟨e, hE, hMove⟩
        apply hBrings e _ move hMove
        rw [hEvents]
        exact List.mem_append_right before hE)
  rw [← hRun] at hEnd
  exact hEnd

end BtPeer

------------------------------------------------------------
-- Between Two Servers
------------------------------------------------------------

namespace BtPeer

open EventMachine NodeNetwork

/- A segment arrives as it was sent. -/
theorem CarriesSegment.received
    {content : Nat → Byte}
    {pkt : Packet}
    (hCarries : CarriesSegment content pkt)
    (stale : Nat → Byte) :
    CarriesSegment content (received pkt stale) := by
  have hHeader :=
    (validPacket_header hCarries.valid)
  have hAlike : Alike pkt (BtPeer.received pkt stale) := by
    apply decodePkt_encodePkt
    omega
  have hSame := sameTreatment_of_alike hAlike
  have hFields := hAlike.header
  have hData := hSame.data hCarries.valid
  have hLength := hSame.dataLen hCarries.valid
  have hValid := hSame.accepted
  generalize BtPeer.received pkt stale = pkt'
    at hFields hData hLength hValid ⊢
  have hType : pkt'.type = pkt.type := by rw [hFields]
  have hSeq : pkt'.seq = pkt.seq := by rw [hFields]
  refine ⟨hValid.symm.trans hCarries.valid, ?_,
    hLength.symm.trans hCarries.dataLen, ?_, ?_, ?_⟩
  · rw [hType]
    exact hCarries.type
  · rw [hSeq]
    exact hCarries.first
  · rw [hSeq]
    exact hCarries.last
  · intro i hi
    rw [hSeq, ← hData i (by rw [hCarries.dataLen]; omega)]
    exact hCarries.bytes i hi

namespace Swarm

variable {ι : Type*}

/- The chunks of server `j` that server `i` has asked for. -/
def requested
    (w : Swarm ι)
    (s : ι → PeerServer)
    (i j : ι) : Set (Nat → Byte) :=
  fun content =>
    ∃ hasIndex,
      content = chunkBytes (w.start j) hasIndex ∧
        w.Sends s i j .get
          (fun get =>
            hash2Index (w.haschunks j) (get.getHash 0) =
              some hasIndex)

/-
  No DATA packet from server `j` to server `i` is empty, as
  it is when the chunk could not be mapped.
-/
def SendsData
    (w : Swarm ι)
    (s : ι → PeerServer)
    (j i : ι) : Prop :=
  ∀ d ∈ (s j).sent,
    w.SentTo j i d →
      PacketType.ofCode d.pkt.type = some .data →
        d.pkt.getDataLen ≠ 0

/-
  What server `i` is handed from server `j` are segments of
  the chunks that it has asked server `j` for.
-/
theorem Justified.bringsSegment
    {w : Swarm ι}
    {s : ι → PeerServer}
    {i j : ι}
    (hAll : w.Justified s)
    (hData : w.SendsData s j i)
    {p : Nat}
    (hAddr : ((w.start i).peer p).addr = w.address j)
    {e : ServerEvent}
    (hAllowed : w.network.Allowed s (i, e)) :
    e.BringsSegment (w.start i) p (w.requested s i j) := by
  intro move hMove
  cases e with
  | timeout env =>
      cases hMove
      trivial
  | command env chunkfile outputfile text => cases hMove
  | packet env pkt sender =>
      simp only [ServerEvent.dlEvent] at hMove
      split at hMove
      · rename_i hTaken
        rcases hTaken with ⟨hValid, hIndex, hType⟩
        cases hMove
        have hSender : w.address j = sender :=
          hAddr.symm.trans (addr_of_addr2Index hIndex)
        rcases hAllowed with hFree | ⟨k, d, hMem, hTo, hPacket⟩
        · exact absurd hSender.symm (hFree j)
        · rcases hPacket with ⟨env', stale, hPacket⟩
          rw [ServerEvent.packet.injEq] at hPacket
          rcases hPacket with ⟨_, rfl, rfl⟩
          have hSame := w.distinct hSender
          subst hSame
          have hSent := (hAll j).sent d hMem
          rw [(received_type hSent.header stale).1] at hType
          have hCaused := hSent.caused
          rw [Datagram.Caused, hType] at hCaused
          rcases hCaused with
            ⟨_, _, hasIndex, hFrom, hEmpty | ⟨_, hCarries⟩⟩
          · exact absurd hEmpty (hData d hMem hTo hType)
          · rcases hAll.of_heard hFrom hTo with
              ⟨get, hGet, hGetTo, hGetType, stale', hAsked⟩
            have hRead :=
              (hAll.request_offered hGet hGetTo hGetType).1
            rw [Requests, hRead stale'] at hAsked
            exact ⟨_,
              ⟨hasIndex, rfl, get, hGet, hGetTo, hGetType,
                hAsked⟩,
              hCarries.received stale⟩
      · cases hMove

/-
  Server `i` has asked server `j` for no chunk but the one at
  `hasIndex`.
-/
def AsksOnly
    (w : Swarm ι)
    (s : ι → PeerServer)
    (i j : ι)
    (hasIndex : Nat) : Prop :=
  ∀ d ∈ (s i).sent,
    w.SentTo i j d →
      PacketType.ofCode d.pkt.type = some .get →
        hash2Index (w.haschunks j) (d.pkt.getHash 0) =
          some hasIndex

theorem AsksOnly.requested_subset
    {w : Swarm ι}
    {s : ι → PeerServer}
    {i j : ι}
    {hasIndex : Nat}
    (hOne : w.AsksOnly s i j hasIndex) :
    w.requested s i j ⊆ {chunkBytes (w.start j) hasIndex} := by
  rintro content ⟨k, rfl, d, hMem, hTo, hType, hAsked⟩
  have hIndex := (hOne d hMem hTo hType).symm.trans hAsked
  rw [Option.some.injEq] at hIndex
  rw [Set.mem_singleton_iff, hIndex]

variable [DecidableEq ι]

/- The download of server `i` from server `j`. -/
theorem run_holds
    (w : Swarm ι)
    {xs : List (ι × ServerEvent)}
    (hAllowed :
      Along w.network.next w.network.Allowed w.start xs)
    {i j : ι}
    (hData :
      w.SendsData (run w.network.next w.start xs) j i)
    {p : Nat}
    (hPeer : p < (w.peers i).length)
    (hAddr : ((w.start i).peer p).addr = w.address j)
    {contents : Set (Nat → Byte)} :
    let s := run w.network.next w.start xs
    w.requested s i j ⊆ contents →
      ((s i).peer p).isDownloading = true →
        ((s i).peer p).dl.Holds contents lastSeq := by
  intro s hMore hDownloading
  have hAll : w.Justified s := w.run_justified hAllowed
  have hNode :
      s i =
        run (PeerServer.step w.sha1) (w.start i)
          ((xs.filter (fun x => x.1 = i)).map Prod.snd) :=
    System.run_node w.start xs i
  rw [hNode] at hDownloading ⊢
  refine download_holds w.sha1 (w.peers i) (w.masterChunk i)
    (w.haschunks i) (w.maxConn i) (w.files i) hPeer ?_
    hDownloading
  intro e hMem
  rcases List.mem_map.mp hMem with ⟨x, hX, rfl⟩
  rcases List.mem_filter.mp hX with ⟨hRun, hHere⟩
  have hi : x.1 = i := of_decide_eq_true hHere
  have hOk :=
    System.delivered_of_along w.keepsLogs hAllowed hRun
  subst hi
  exact (hAll.bringsSegment hData hAddr hOk).mono hMore

end Swarm

end BtPeer

------------------------------------------------------------
-- The File
------------------------------------------------------------

namespace BtPeer

open PeerServer

/- Chunk `i` is fetched, and the files are `files`. -/
def Books.Written
    (i : Nat)
    (files : CString → ByteMemory.SparseFile Byte)
    (b : Books) : Prop :=
  b.state i = .fetched ∧ b.files = files

theorem Books.Written.keeps
    (i : Nat)
    (files : CString → ByteMemory.SparseFile Byte) :
    Books.Keeps (Books.Written i files) where
  raise := fun _ _ hWritten => hWritten
  beginDownload := by
    rintro b p k hBegin ⟨hState, hFiles⟩
    have hOther : i ≠ k := by
      rintro rfl
      have hFree : b.state i = .unfetched := hBegin.unfetched
      rw [hState] at hFree
      nomatch hFree
    refine ⟨?_, hFiles⟩
    rw [Books.beginDownload_state, if_neg hOther]
    exact hState
  unload := fun _ _ _ _ hWritten => hWritten

/- What is written, when the buffer has the right hash. -/
theorem lastWrite_of_buffer
    {sha1 : List Byte → Nat → Byte}
    {env : Env}
    {s : PeerServer}
    {pkt : Packet}
    {p : Nat}
    {chunk : Nat → Byte}
    (hBuffer :
      ∀ k, k < btChunkSize →
        ((updateDownload env s p pkt).peer p).dl.buffer k =
          chunk k)
    (hHash :
      s.getchunks.HasHash sha1 (s.peer p).dl.getIndex chunk)
    (hOpen : env.openOk = true)
    (hWritten : btChunkSize ≤ env.written) :
    lastWrite sha1 env s pkt p =
      some
        { position := savePosition env s (s.peer p).dl
          buffer :=
            ((updateDownload env s p pkt).peer p).dl.buffer
          length := btChunkSize } := by
  have hBooks := updateDownload_books env s p pkt
  have hBlock :
      ByteMemory.block
          ((updateDownload env s p pkt).peer p).dl.buffer 0
          btChunkSize =
        ByteMemory.block chunk 0 btChunkSize := by
    apply ByteMemory.block_congr
    intro k hk
    rw [Nat.zero_add]
    exact hBuffer k hk
  have hCheck :
      checkHashSucceed sha1 (updateDownload env s p pkt)
          ((updateDownload env s p pkt).peer p).dl =
        true := by
    unfold checkHashSucceed
    rw [chunk_of_books hBooks p, decide_eq_true_eq, hBlock]
    exact hHash
  unfold lastWrite savedWrite
  rw [if_pos ⟨hCheck, hOpen⟩, bufferWrite,
    savePosition_of_books env hBooks p,
    Nat.min_eq_right hWritten]

/- A full write behind a completion is the last one. -/
theorem step_written
    {sha1 : List Byte → Nat → Byte}
    {env : Env}
    {s : PeerServer}
    {pkt : Packet}
    {sender : Address}
    {p : Nat}
    (hDone : Completes env s pkt sender p)
    {write : Write}
    (hWrite : lastWrite sha1 env s pkt p = some write)
    (hFull : fullWrite (some write) = true) :
    (s.step sha1 (.packet env pkt sender)).books.Written
      (s.peer p).dl.getIndex
      (s.books.finishDownload p (some write)).files := by
  have hComplete :=
    completeDownload_books sha1 env
      (updateDownload env s p pkt) p
  rw [updateDownload_books] at hComplete
  change
    _ = s.books.finishDownload p (lastWrite sha1 env s pkt p)
      at hComplete
  rw [hWrite] at hComplete
  have hFetched :
      (completeDownload sha1 env (updateDownload env s p pkt)
          p).books.Written
        (s.peer p).dl.getIndex
        (s.books.finishDownload p (some write)).files := by
    have hState :=
      Books.finishDownload_state_self s.books p (some write)
    rw [if_pos (Or.inl hFull)] at hState
    rw [hComplete]
    exact ⟨hState, rfl⟩
  have hFinished := hDone.finished
  rw [← updateDownload_dl] at hFinished
  rw [step_data sha1 env hDone.valid hDone.type hDone.sender
    hDone.alive hDone.downloading]
  dsimp only
  rw [if_pos hFinished]
  split
  · exact refreshChunkDownload_keeps
      (Books.Written.keeps _ _) env hFetched
  · exact hFetched

/-
  A download that completes with the bytes of a chunk whose
  hash is right is fetched, and the chunk is in the file.
-/
theorem step_saves
    {sha1 : List Byte → Nat → Byte}
    {env : Env}
    {s : PeerServer}
    {pkt : Packet}
    {sender : Address}
    {p : Nat}
    (hDone : Completes env s pkt sender p)
    {chunk : Nat → Byte}
    (hBuffer :
      ∀ k, k < btChunkSize →
        ((updateDownload env s p pkt).peer p).dl.buffer k =
          chunk k)
    (hHash :
      s.getchunks.HasHash sha1 (s.peer p).dl.getIndex chunk)
    (hOpen : env.openOk = true)
    (hWritten : btChunkSize ≤ env.written) :
    let s' := s.step sha1 (.packet env pkt sender)
    (s'.getchunks.chunks (s.peer p).dl.getIndex).state =
        .fetched ∧
      ByteMemory.Stores (s'.files (s.peer p).dl.filename)
        (savePosition env s (s.peer p).dl) chunk
        btChunkSize := by
  intro s'
  rcases step_written hDone
      (lastWrite_of_buffer hBuffer hHash hOpen hWritten)
      (fullWrite_chunk _ _) with
    ⟨hState, hFiles⟩
  refine ⟨hState, ?_⟩
  have hFile :=
    congrFun hFiles (s.books.slot p).filename
  rw [Books.finishDownload_files, Function.update_self]
    at hFile
  change s'.files (s.peer p).dl.filename = _ at hFile
  rw [hFile]
  intro k hk
  rw [← hBuffer k hk]
  exact ByteMemory.stores_pwrite 0 _ _ _ _ k hk

end BtPeer

------------------------------------------------------------
-- From One Server To The Other
------------------------------------------------------------

namespace BtPeer

open EventMachine NodeNetwork PeerServer

/-
  Whatever the network does, a server that downloads from
  another has stored nothing but bytes of chunks that it has
  asked that server for, as that server has them.
-/
theorem swarm_download_stores
    {ι : Type*}
    [DecidableEq ι]
    (w : Swarm ι)
    (xs : List (ι × ServerEvent))
    (hAllowed :
      Along w.network.next w.network.Allowed w.start xs)
    (i j : ι)
    (hData :
      w.SendsData (run w.network.next w.start xs) j i)
    (p : Nat)
    (hPeer : p < (w.peers i).length)
    (hAddr : ((w.start i).peer p).addr = w.address j)
    (hDownloading :
      ((run w.network.next w.start xs i).peer
        p).isDownloading = true) :
    let s := run w.network.next w.start xs
    ∀ seq, Received ((s i).peer p).dl seq →
      ∃ get ∈ (s i).sent,
        w.SentTo i j get ∧
          PacketType.ofCode get.pkt.type = some .get ∧
          ∃ hasIndex,
            hash2Index (w.haschunks j) (get.pkt.getHash 0) =
              some hasIndex ∧
            BlockStored (chunkBytes (w.start j) hasIndex)
              ((s i).peer p).dl.buffer seq.toNat := by
  intro s seq hReceived
  have hHolds :=
    w.run_holds hAllowed hData hPeer hAddr
      (Set.Subset.refl _) hDownloading
  rcases hHolds.received hReceived with
    ⟨_, ⟨hasIndex, rfl, get, hMem, hTo, hType, hAsked⟩,
      hStored⟩
  exact ⟨get, hMem, hTo, hType, hasIndex, hAsked, hStored⟩

theorem pairSwarm_sendsData :
    pairSwarm.SendsData
      (run pairSwarm.network.next pairSwarm.start pairEvents)
      false true := by
  have hEach :
      ∀ d ∈
        (run pairSwarm.network.next pairSwarm.start pairEvents
          false).sent,
        PacketType.ofCode d.pkt.type = some .data →
          d.pkt.getDataLen ≠ 0 := by
    decide +kernel
  exact fun d hMem _ => hEach d hMem

theorem pairSwarm_asksOnly :
    pairSwarm.AsksOnly
      (run pairSwarm.network.next pairSwarm.start pairEvents)
      true false 0 := by
  have hEach :
      ∀ d ∈
        (run pairSwarm.network.next pairSwarm.start pairEvents
          true).sent,
        PacketType.ofCode d.pkt.type = some .get →
          hash2Index oneChunk (d.pkt.getHash 0) = some 0 := by
    decide +kernel
  exact fun d hMem _ => hEach d hMem

theorem pairSwarm_downloading :
    ((run pairSwarm.network.next pairSwarm.start pairEvents
      true).peer 0).isDownloading = true := by
  decide +kernel

theorem swarm_download_stores_pair :
    let w := pairSwarm
    let s := run w.network.next w.start pairEvents
    ∃ get ∈ (s true).sent,
      w.SentTo true false get ∧
        PacketType.ofCode get.pkt.type = some .get ∧
        ∃ hasIndex,
          hash2Index oneChunk (get.pkt.getHash 0) =
            some hasIndex ∧
          BlockStored (chunkBytes (w.start false) hasIndex)
            ((s true).peer 0).dl.buffer 1 :=
  swarm_download_stores pairSwarm pairEvents
    pairEvents_allowed true false pairSwarm_sendsData 0
    Nat.one_pos rfl pairSwarm_downloading 1
    (Or.inl (by decide +kernel))

end BtPeer
