import BtPeer.Packet.RoundTrip
import BtPeer.Server.Announce
import BtPeer.Server.Emission
import BtPeer.Server.Uploads
import BtPeer.Transfer.Earned

/-
  Why the server sends what it sends: every IHAVE, GET, DATA
  and ACK answers packets that were received before from the
  peer it goes to, whatever those packets look like.

  Key definitions include:
    * `Heard`
    * `Datagram.Justified`
    * `PeerServer.Justified`
    * `HeardIn`

  Key theorems include:
    * `step_justified`
    * `run_justified`
    * `sent_listed`
    * `ihave_asked`
    * `get_announced`
    * `data_requested`
    * `ack_received`
-/

------------------------------------------------------------
-- What Was Heard
------------------------------------------------------------

namespace BtPeer

/- The packets that were accepted from each peer. -/
abbrev Heard := Nat → Packet → Prop

namespace Heard

/- A packet of type `t` that meets `ok` came from peer `p`. -/
def From
    (heard : Heard)
    (p : Nat)
    (t : PacketType)
    (ok : Packet → Prop) : Prop :=
  ∃ pkt,
    heard p pkt ∧ PacketType.ofCode pkt.type = some t ∧ ok pkt

/- A segment with the number `n` came from peer `p`. -/
def Segment
    (heard : Heard)
    (p n : Nat) : Prop :=
  heard.From p .data (fun pkt => pkt.seq.toNat = n)

variable {heard heard' : Heard}

theorem From.mono
    {p : Nat}
    {t : PacketType}
    {ok : Packet → Prop}
    (hFrom : heard.From p t ok)
    (hMore : ∀ p pkt, heard p pkt → heard' p pkt) :
    heard'.From p t ok := by
  rcases hFrom with ⟨pkt, hHeard, hRest⟩
  exact ⟨pkt, hMore p pkt hHeard, hRest⟩

end Heard

end BtPeer

------------------------------------------------------------
-- What Justifies A Datagram
------------------------------------------------------------

namespace BtPeer

/- The bytes of the master file at an entry of `haschunks`. -/
def chunkBytes
    (s : PeerServer)
    (hasIndex : Nat) : Nat → Byte :=
  fun k =>
    s.masterChunk ((getChunkOffset s hasIndex).toNat + k)

/- The hash in a GET is that of entry `hasIndex`. -/
def Requests
    (s : PeerServer)
    (hasIndex : Nat)
    (get : Packet) : Prop :=
  hash2Index s.haschunks (get.getHash 0) = some hasIndex

/-
  A WHOHAS goes to peers of the list; an IHAVE offers hashes
  that its receiver asked for and the server has; a GET asks
  for a hash that its receiver announced; a DATA packet
  carries a segment of the chunk that its receiver requested,
  or nothing; an ACK goes to a peer that made an offer and
  covers segments that came from it.
-/
def Datagram.Caused
    (heard : Heard)
    (s : PeerServer)
    (d : Datagram) : Prop :=
  match PacketType.ofCode d.pkt.type with
  | some .whohas =>
      d.dest < s.peerlist.count ∧
        ∃ hashes, CarriesHashes .whohas hashes d.pkt
  | some .ihave =>
      ∃ hashes,
        CarriesHashes .ihave hashes d.pkt ∧ hashes ≠ [] ∧
          ∀ hash ∈ hashes,
            (hash2Index s.haschunks hash).isSome = true ∧
              heard.From d.dest .whohas
                (fun whohas => hash ∈ whohas.hashes)
  | some .get =>
      ∃ hash,
        CarriesHashes .get [hash] d.pkt ∧
          heard.From d.dest .ihave
            (fun ihave => hash ∈ ihave.hashes)
  | some .data =>
      1 ≤ d.pkt.seq.toNat ∧ d.pkt.seq.toNat ≤ lastSeq ∧
        ∃ hasIndex,
          heard.From d.dest .get (Requests s hasIndex) ∧
            (d.pkt.getDataLen = 0 ∨
              (0 ≤ getChunkOffset s hasIndex ∧
                CarriesSegment (chunkBytes s hasIndex)
                  d.pkt))
  | some .ack =>
      heard.From d.dest .ihave (fun _ => True) ∧
        ∀ n, 1 ≤ n → n ≤ d.pkt.ack.toNat →
          heard.Segment d.dest n
  | _ => False

/- It fits a buffer with its header, and it has a cause. -/
structure Datagram.Justified
    (heard : Heard)
    (s : PeerServer)
    (d : Datagram) : Prop where
  header : headerSize ≤ d.pkt.pktLen.toNat
  fits : d.pkt.pktLen.toNat ≤ packetSize
  caused : d.Caused heard s

/- Hearing more does no harm. -/
theorem Datagram.Justified.mono
    {heard heard' : Heard}
    {s : PeerServer}
    {d : Datagram}
    (hJustified : d.Justified heard s)
    (hMore : ∀ p pkt, heard p pkt → heard' p pkt) :
    d.Justified heard' s := by
  refine ⟨hJustified.header, hJustified.fits, ?_⟩
  have hCaused := hJustified.caused
  unfold Datagram.Caused at hCaused ⊢
  split at hCaused
  · exact hCaused
  · rcases hCaused with ⟨hashes, hCarries, hSome, hEach⟩
    refine ⟨hashes, hCarries, hSome, ?_⟩
    intro hash hMem
    rcases hEach hash hMem with ⟨hHas, hAsked⟩
    exact ⟨hHas, hAsked.mono hMore⟩
  · rcases hCaused with ⟨hash, hCarries, hFrom⟩
    exact ⟨hash, hCarries, hFrom.mono hMore⟩
  · rcases hCaused with ⟨hFirst, hLast, hasIndex, hFrom, hData⟩
    exact ⟨hFirst, hLast, hasIndex, hFrom.mono hMore, hData⟩
  · refine ⟨hCaused.1.mono hMore, ?_⟩
    intro n hFirst hLe
    exact (hCaused.2 n hFirst hLe).mono hMore
  · exact hCaused

end BtPeer

------------------------------------------------------------
-- The Invariant
------------------------------------------------------------

namespace BtPeer

open PeerServer

/- What an upload for entry `hasIndex` may have mapped. -/
def Maps
    (s : PeerServer)
    (hasIndex : Nat)
    (data : Option (Nat → Byte)) : Prop :=
  data = none ∨
    (0 ≤ getChunkOffset s hasIndex ∧
      data = some (chunkBytes s hasIndex))

/- The upload answers a GET of peer `p`. -/
structure Upload.Answers
    (heard : Heard)
    (start : PeerServer)
    (p : Nat)
    (ul : Upload) : Prop where
  own : ul.pIndex = p
  bounded : ul.Bounded
  asked :
    ∃ hasIndex,
      heard.From p .get (Requests start hasIndex) ∧
        Maps start hasIndex ul.data

/- What is recorded of peer `p` was heard from it. -/
structure Peer.Justified
    (heard : Heard)
    (start : PeerServer)
    (p : Nat)
    (pr : Peer) : Prop where
  addr : pr.addr = (start.peer p).addr
  queue :
    ∀ hash ∈ pr.hasqueue,
      heard.From p .ihave (fun ihave => hash ∈ ihave.hashes)
  download :
    pr.isDownloading = true →
      pr.dl.pIndex = p ∧
        heard.From p .ihave (fun _ => True) ∧
        pr.dl.rwin.Earned (heard.Segment p)
  upload :
    pr.isUploading = true → pr.ul.Answers heard start p

/-
  The server still has the addresses and files that it
  started with, and all it knows and sent is justified.
-/
structure PeerServer.Justified
    (heard : Heard)
    (s start : PeerServer) : Prop where
  haschunks : s.haschunks = start.haschunks
  masterChunk : s.masterChunk = start.masterChunk
  count : s.peerlist.count = start.peerlist.count
  peers : ∀ p, (s.peer p).Justified heard start p
  sent : ∀ d ∈ s.sent, d.Justified heard start

section

variable {heard heard' : Heard}
variable {start s s' : PeerServer}

theorem Peer.Justified.mono
    {p : Nat}
    {pr : Peer}
    (hPeer : pr.Justified heard start p)
    (hMore : ∀ p pkt, heard p pkt → heard' p pkt) :
    pr.Justified heard' start p where
  addr := hPeer.addr
  queue := fun hash hMem =>
    (hPeer.queue hash hMem).mono hMore
  download := by
    intro hDownloading
    rcases hPeer.download hDownloading with
      ⟨hIndex, hOffer, hEarned⟩
    exact ⟨hIndex, hOffer.mono hMore,
      hEarned.mono (fun n hSegment =>
        Heard.From.mono hSegment hMore)⟩
  upload := by
    intro hUploading
    rcases hPeer.upload hUploading with
      ⟨hOwn, hBounded, hasIndex, hFrom, hMaps⟩
    exact ⟨hOwn, hBounded, hasIndex, hFrom.mono hMore, hMaps⟩

theorem PeerServer.Justified.mono
    (hJust : s.Justified heard start)
    (hMore : ∀ p pkt, heard p pkt → heard' p pkt) :
    s.Justified heard' start where
  haschunks := hJust.haschunks
  masterChunk := hJust.masterChunk
  count := hJust.count
  peers := fun p => (hJust.peers p).mono hMore
  sent := fun d hMem => (hJust.sent d hMem).mono hMore

/- The peers are those the server was started with. -/
structure SamePeers (start s : PeerServer) : Prop where
  count : s.peerlist.count = start.peerlist.count
  index : ∀ addr, addr2Index s addr = addr2Index start addr

theorem PeerServer.Justified.samePeers
    (hJust : s.Justified heard start) :
    SamePeers start s where
  count := hJust.count
  index := by
    intro addr
    have hAddr (i : Nat) :
        (s.peer i).addr = (start.peer i).addr :=
      (hJust.peers i).addr
    simp only [addr2Index, hAddr, hJust.count]

/- Only the peers, the files and what was sent matter. -/
theorem PeerServer.Justified.of_same
    (hJust : s.Justified heard start)
    (hPeers : s'.peerlist = s.peerlist)
    (hHas : s'.haschunks = s.haschunks)
    (hMaster : s'.masterChunk = s.masterChunk)
    (hSent : s'.sent = s.sent) :
    s'.Justified heard start where
  haschunks := hHas.trans hJust.haschunks
  masterChunk := hMaster.trans hJust.masterChunk
  count := by
    rw [hPeers]
    exact hJust.count
  peers := by
    intro p
    rw [peer, hPeers]
    exact hJust.peers p
  sent := by
    rw [hSent]
    exact hJust.sent

/- One peer gets a new value. -/
theorem PeerServer.Justified.setPeer
    (hJust : s.Justified heard start)
    {p : Nat}
    {pr : Peer}
    (hPeer : pr.Justified heard start p) :
    (s.setPeer p pr).Justified heard start where
  haschunks := hJust.haschunks
  masterChunk := hJust.masterChunk
  count := hJust.count
  peers := by
    intro q
    rw [setPeer_peer]
    split
    · rename_i hEq
      rw [hEq]
      exact hPeer
    · exact hJust.peers q
  sent := hJust.sent

/- More is sent. -/
theorem PeerServer.Justified.sendAll
    (hJust : s.Justified heard start)
    (env : Env)
    {pps : List PktParam}
    (hNew :
      ∀ pp ∈ pps,
        ∀ d ∈
          sendPacket s.getchunks s.peerlist.count env.stack
            pp,
          d.Justified heard start) :
    (s.sendAll env pps).Justified heard start where
  haschunks := hJust.haschunks
  masterChunk := hJust.masterChunk
  count := hJust.count
  peers := hJust.peers
  sent := by
    intro d hMem
    rcases List.mem_append.mp hMem with hOld | hSent
    · exact hJust.sent d hOld
    · rcases List.mem_flatMap.mp hSent with ⟨pp, hPP, hD⟩
      exact hNew pp hPP d hD

theorem PeerServer.Justified.send
    (hJust : s.Justified heard start)
    (env : Env)
    {pp : PktParam}
    (hNew :
      ∀ d ∈
        sendPacket s.getchunks s.peerlist.count env.stack pp,
        d.Justified heard start) :
    (s.send env pp).Justified heard start := by
  have hAll :=
    hJust.sendAll env (List.forall_mem_singleton.mpr hNew)
  refine hAll.of_same rfl rfl rfl ?_
  simp only [PeerServer.send, PeerServer.sendAll,
    List.flatMap_cons, List.flatMap_nil, List.append_nil]

/- Its bytes of a chunk are those of the start. -/
theorem PeerServer.Justified.getChunkOffset_eq
    (hJust : s.Justified heard start)
    (hasIndex : Nat) :
    getChunkOffset s hasIndex =
      getChunkOffset start hasIndex := by
  rw [getChunkOffset, hJust.haschunks]
  rfl

/- What `load_data` returns. -/
theorem PeerServer.Justified.loadData_maps
    (hJust : s.Justified heard start)
    (env : Env)
    (hasIndex : Nat) :
    Maps start hasIndex (loadData env s hasIndex) := by
  unfold loadData
  rw [hJust.getChunkOffset_eq, hJust.masterChunk]
  dsimp only
  split
  · rename_i hMapped
    exact Or.inr ⟨hMapped.2, rfl⟩
  · exact Or.inl rfl

end

end BtPeer

------------------------------------------------------------
-- The Calls
------------------------------------------------------------

namespace BtPeer

open PeerServer

theorem CarriesHashes.header_le
    {t : PacketType}
    {hashes : List CString}
    {pkt : Packet}
    (hCarries : CarriesHashes t hashes pkt) :
    headerSize ≤ pkt.pktLen.toNat := by
  rw [hCarries.pktLen, Nat.add_assoc]
  exact Nat.le_add_right _ _

/- There is room for the most hashes that a packet takes. -/
theorem CarriesHashes.fits
    {t : PacketType}
    {hashes : List CString}
    {pkt : Packet}
    (hCarries : CarriesHashes t hashes pkt) :
    pkt.pktLen.toNat ≤ packetSize := by
  have hFew := hCarries.few
  have hBytes : countBytes t ≤ 4 := by
    cases t <;> decide
  have hSize : packetSize = 1500 := rfl
  rw [hashNumPkt_eq] at hFew
  rw [hCarries.pktLen, headerSize_eq, sha1HashSize_eq]
  omega

/- A call for one peer reaches only that peer. -/
theorem dest_of_mem
    {getchunks : ChunkList}
    {count : Nat}
    {stack : Nat → Byte}
    {pp : PktParam}
    {p : Nat}
    (hIndex : pp.pIndex = p)
    (hOne : pp.pCount = 1)
    {d : Datagram}
    (hMem : d ∈ sendPacket getchunks count stack pp) :
    d.dest = p := by
  rcases List.mem_flatMap.mp hMem with ⟨pkt, _, hSent⟩
  rcases List.mem_map.mp hSent with ⟨i, hi, rfl⟩
  have hCount : pp.peerCount count = 1 := by
    rw [PktParam.peerCount, hOne]
    rfl
  rw [hCount, List.mem_range] at hi
  simp only [hIndex, Int.toNat_natCast]
  omega

section

variable {heard : Heard}
variable {start : PeerServer}
variable {getchunks : ChunkList}
variable {count p : Nat}
variable {stack : Nat → Byte}
variable {d : Datagram}

theorem ack_justified
    {ack : Word}
    (hOffer : heard.From p .ihave (fun _ => True))
    (hEarned : EarnedAck (heard.Segment p) ack)
    (hMem :
      d ∈ sendPacket getchunks count stack
        (ackParam p ack)) :
    d.Justified heard start := by
  have hDest := dest_of_mem rfl rfl hMem
  have hPkt := mem_sendPacket hMem
  rw [buildPackets_ack, List.mem_singleton] at hPkt
  have hAck := ackPacket_carries stack ack
  rw [← hPkt] at hAck
  have hLength : d.pkt.pktLen.toNat = headerSize := by
    rw [hPkt]
    rfl
  refine ⟨hLength.ge, by rw [hLength]; decide, ?_⟩
  rw [Datagram.Caused, hAck.type, hDest, hAck.ack]
  exact ⟨hOffer, hEarned⟩

/- A segment of an upload to a peer that sent a GET. -/
theorem segment_justified
    {ul : Upload}
    {seq : Word}
    (hAnswers : ul.Answers heard start p)
    (hFirst : 0 < seq.toNat)
    (hLast : seq.toNat ≤ lastSeq)
    (hMem :
      d ∈ sendPacket getchunks count stack
        (ul.segment seq)) :
    d.Justified heard start := by
  have hDest :=
    @dest_of_mem getchunks count stack (ul.segment seq)
      ul.pIndex rfl rfl d hMem
  have hPkt := mem_sendPacket hMem
  have hCode : d.pkt.type = PacketType.data.code :=
    buildPackets_type stack d.pkt hPkt
  rcases hAnswers.asked with ⟨hasIndex, hFrom, hMaps⟩
  rw [hAnswers.own] at hDest
  rw [← hDest] at hFrom
  have hSegment :
      headerSize ≤ d.pkt.pktLen.toNat ∧
        d.pkt.pktLen.toNat ≤ packetSize ∧ d.pkt.seq = seq ∧
        (d.pkt.getDataLen = 0 ∨
          (0 ≤ getChunkOffset start hasIndex ∧
            CarriesSegment (chunkBytes start hasIndex)
              d.pkt)) := by
    rcases hMaps with hNone | ⟨hOffset, hSome⟩
    · -- nothing is mapped, so the packet is empty
      have hIndex : ¬ ((ul.pIndex : Int) < 0) := by omega
      simp [buildPackets, Upload.segment, hNone, dataParam,
        PktParam.clear, PktParam.nondata, plainPacket,
        hIndex] at hPkt
      rw [hPkt]
      exact ⟨Nat.le_refl _, Nat.le_of_ble_eq_true rfl, rfl,
        Or.inl rfl⟩
    · rw [Upload.segment, hSome, Option.map_some,
        buildPackets_data, List.mem_singleton] at hPkt
      rw [hPkt]
      exact ⟨Nat.le_of_ble_eq_true rfl,
        Nat.le_of_ble_eq_true rfl, rfl, Or.inr
          ⟨hOffset,
            segmentPacket_carries stack hFirst hLast _⟩⟩
  rcases hSegment with ⟨hHeader, hFits, hSeq, hData⟩
  refine ⟨hHeader, hFits, ?_⟩
  rw [Datagram.Caused, hCode, PacketType.ofCode_code, hSeq]
  exact ⟨hFirst, hLast, hasIndex, hFrom, hData⟩

theorem get_justified
    {getIndex : Nat}
    (hFrom :
      heard.From p .ihave
        (fun ihave =>
          (getchunks.chunks getIndex).sha1 ∈ ihave.hashes))
    (hMem :
      d ∈ sendPacket getchunks count stack
        (getParam getchunks p getIndex)) :
    d.Justified heard start := by
  have hDest :=
    @dest_of_mem getchunks count stack
      (getParam getchunks p getIndex) p rfl rfl d hMem
  have hPkt := mem_sendPacket hMem
  rcases getPackets_carry getchunks p getIndex stack with
    ⟨get, hBuild, hCarries⟩
  rw [hBuild, List.mem_singleton] at hPkt
  rw [← hPkt] at hCarries
  refine ⟨hCarries.header_le, hCarries.fits, ?_⟩
  rw [Datagram.Caused, hCarries.ofCode_type]
  refine ⟨_, hCarries, ?_⟩
  rw [hDest]
  exact hFrom

theorem ihave_justified
    {ihavechunks : ChunkList}
    (hOffered :
      ∀ hash ∈ ihavechunks.hashes,
        (hash2Index start.haschunks hash).isSome = true ∧
          heard.From p .whohas
            (fun whohas => hash ∈ whohas.hashes))
    (hMem :
      d ∈ sendPacket getchunks count stack
        (ihaveParam ihavechunks p)) :
    d.Justified heard start := by
  have hDest :=
    @dest_of_mem getchunks count stack
      (ihaveParam ihavechunks p) p rfl rfl d hMem
  have hPkt := mem_sendPacket hMem
  have hEach :=
    (@mem_buildPackets getchunks ihavechunks
      (ihaveParam ihavechunks p) (Or.inr rfl) rfl
      (Int.natCast_nonneg p) (Int.le_refl 0) stack).1
  rcases hEach d.pkt hPkt with ⟨m, _, hCarries⟩
  have hType : (ihaveParam ihavechunks p).type = .ihave := rfl
  rw [hType] at hCarries
  have hValid :=
    hCarries.acceptable_iff.mp
      (ihave_acceptable getchunks ihavechunks p stack d.pkt
        hPkt)
  refine ⟨hCarries.header_le, hCarries.fits, ?_⟩
  rw [Datagram.Caused, hCarries.ofCode_type]
  refine ⟨_, hCarries,
    (hCarries.valid_iff (Or.inr rfl)).mp hValid, ?_⟩
  intro hash hHash
  rcases mem_sliceHashes hHash with ⟨j, hj, rfl⟩
  rw [hDest]
  apply hOffered
  apply List.mem_map.mpr
  refine ⟨j, List.mem_range.mpr hj, ?_⟩
  simp [ihaveParam, PktParam.clear]

theorem whohas_justified
    (hMem :
      d ∈ sendPacket getchunks start.peerlist.count stack
        (whohasParam getchunks)) :
    d.Justified heard start := by
  have hListed : d.dest < start.peerlist.count := by
    rcases List.mem_flatMap.mp hMem with ⟨pkt, _, hSent⟩
    rcases List.mem_map.mp hSent with ⟨i, hi, rfl⟩
    have hLt := List.mem_range.mp hi
    exact (Nat.zero_add i).symm ▸ hLt
  have hEach :=
    (@mem_buildPackets getchunks getchunks
      (whohasParam getchunks) (Or.inl rfl) rfl
      (Int.le_refl 0) (Int.le_refl 0) stack).1
  rcases hEach d.pkt (mem_sendPacket hMem) with
    ⟨m, _, hCarries⟩
  have hType : (whohasParam getchunks).type = .whohas := rfl
  rw [hType] at hCarries
  refine ⟨hCarries.header_le, hCarries.fits, ?_⟩
  rw [Datagram.Caused, hCarries.ofCode_type]
  exact ⟨hListed, _, hCarries⟩

end

end BtPeer

------------------------------------------------------------
-- Answers And Requests
------------------------------------------------------------

namespace BtPeer

open PeerServer

section

variable {heard : Heard}
variable {s start : PeerServer}
variable {p : Nat}
variable {pkt : Packet}

theorem raise_justified
    (hJust : s.Justified heard start)
    (p : Nat) :
    (s.setPeer p
        { s.peer p with isAlive := true }).Justified heard
      start := by
  have hPeer := hJust.peers p
  exact hJust.setPeer
    ⟨hPeer.addr, hPeer.queue, hPeer.download, hPeer.upload⟩

theorem sendWhohas_justified
    (hJust : s.Justified heard start)
    (env : Env) :
    (sendWhohas env s).Justified heard start :=
  hJust.send env (fun _ hMem =>
    whohas_justified (hJust.count ▸ hMem))

/- The answer list holds hashes of the packet that are had. -/
theorem ihaveAnswer_offered
    (s : PeerServer)
    (pkt : Packet)
    (hSome :
      (ihaveLoop s.haschunks pkt pkt.getChunkCnt 0 0
        s.ihavechunks.chunks).1 ≠ 0) :
    (ihaveAnswer s pkt).hashes =
      offeredHashes s.haschunks pkt.hashes := by
  have hLoop :=
    ihaveLoop_spec s.haschunks pkt pkt.getChunkCnt 0 0
      s.ihavechunks.chunks
  rw [← List.range_eq_range'] at hLoop
  simp only [Nat.zero_add] at hLoop
  have hCount :
      (ihaveAnswer s pkt).count =
        (offeredHashes s.haschunks pkt.hashes).length := by
    rw [ihaveAnswer]
    dsimp only
    rw [if_neg hSome]
    exact hLoop.1
  rw [ChunkList.hashes, hCount, List.range_eq_range']
  exact hLoop.2.2

theorem sendIhave_justified
    (hJust : s.Justified heard start)
    (env : Env)
    (hHeard : heard p pkt)
    (hType : PacketType.ofCode pkt.type = some .whohas) :
    (sendIhave env s pkt p).Justified heard start := by
  have hListed :
      ({ s with ihavechunks := ihaveAnswer s pkt } :
          PeerServer).Justified heard start :=
    hJust.of_same rfl rfl rfl rfl
  simp only [sendIhave]
  split
  · exact hListed
  · rename_i hSome
    apply hListed.send env
    intro d hMem
    refine ihave_justified ?_ hMem
    intro hash hHash
    rw [ihaveAnswer_offered s pkt hSome] at hHash
    rcases List.mem_filter.mp hHash with ⟨hAsked, hHas⟩
    rw [hJust.haschunks] at hHas
    exact ⟨hHas, pkt, hHeard, hType, hAsked⟩

theorem parseDownload_justified
    (hJust : s.Justified heard start)
    (env : Env)
    (hHeard : heard p pkt)
    (hType : PacketType.ofCode pkt.type = some .ihave) :
    (parseDownload env s pkt p).1.Justified heard start := by
  have hPeer := hJust.peers p
  unfold parseDownload
  split
  · rename_i dq hLoop
    have hQueue := (parseDownloadLoop_hashes_iff.mp hLoop).2
    refine hJust.setPeer
      ⟨hPeer.addr, ?_, hPeer.download, hPeer.upload⟩
    intro hash hMem
    rw [hQueue] at hMem
    exact ⟨pkt, hHeard, hType, hMem⟩
  · exact hJust.setPeer
      ⟨hPeer.addr, List.forall_mem_nil _, hPeer.download,
        hPeer.upload⟩

/- A chunk is asked for that the queue of the peer names. -/
theorem beginDownload_justified
    (hJust : s.Justified heard start)
    (env : Env)
    {getIndex : Nat}
    (hFrom :
      heard.From p .ihave
        (fun ihave =>
          (s.getchunks.chunks getIndex).sha1 ∈
            ihave.hashes)) :
    (beginDownload env s p getIndex).Justified heard
      start := by
  have hOffer : heard.From p .ihave (fun _ => True) := by
    rcases hFrom with ⟨pkt, hHeard, hType, _⟩
    exact ⟨pkt, hHeard, hType, trivial⟩
  have hGet :
      (sendGet env s p getIndex).Justified heard start := by
    have hState :
        (s.setState getIndex .fetching).Justified heard
          start :=
      hJust.of_same rfl rfl rfl rfl
    apply hState.send env
    intro d hMem
    refine get_justified ?_ hMem
    simp only [PeerServer.setState, ChunkList.setState_sha1]
    exact hFrom
  have hPeer := hGet.peers p
  -- the flag and the download are set one after the other
  have hBegun :
      ((sendGet env s p getIndex).setPeer p
          { (sendGet env s p getIndex).peer p with
            isDownloading := true
            dl :=
              dlInit (env.dlInitTs p) p getIndex
                s.dlFilename }).Justified heard start :=
    hGet.setPeer
      ⟨hPeer.addr, hPeer.queue,
        fun _ => ⟨rfl, hOffer, init_earned _⟩,
        hPeer.upload⟩
  refine hBegun.of_same ?_ rfl rfl rfl
  simp [beginDownload, startDownload, PeerServer.setPeer,
    peer, sendGet, PeerServer.send, PeerServer.setState]

theorem trySendGet_justified
    (hJust : s.Justified heard start)
    (env : Env)
    (p : Nat) :
    (trySendGet env s p).Justified heard start := by
  have hPeer := hJust.peers p
  unfold trySendGet findUnfetchedChunk
  cases hSearch :
      searchQueue s.getchunks (s.peer p).hasqueue with
  | none => exact hJust
  | some found =>
      rcases found with ⟨i, dq⟩
      have hFound :
          (s.setPeer p
              { s.peer p with
                hasqueue := dq
                dl := { (s.peer p).dl with getIndex := i }
              }).Justified heard start := by
        refine hJust.setPeer
          ⟨hPeer.addr, ?_, hPeer.download, hPeer.upload⟩
        intro hash hMem
        exact hPeer.queue hash
          (searchQueue_rest hSearch hash hMem)
      exact beginDownload_justified hFound env
        (hPeer.queue _ (searchQueue_spec hSearch).2.2)

theorem refreshLoop_justified
    (env : Env)
    (k i : Nat)
    {s : PeerServer}
    (hJust : s.Justified heard start) :
    (refreshLoop env k i s).Justified heard start := by
  induction k generalizing i s with
  | zero => exact hJust
  | succ k ih =>
      simp only [refreshLoop]
      split
      · exact hJust
      · split
        · exact ih (i + 1) hJust
        · exact ih (i + 1) (trySendGet_justified hJust env i)

theorem refreshChunkDownload_justified
    (hJust : s.Justified heard start)
    (env : Env) :
    (refreshChunkDownload env s).Justified heard start := by
  have hLoop :=
    refreshLoop_justified env s.peerlist.count 0 hJust
  unfold refreshChunkDownload askAgain
  split
  · exact (sendWhohas_justified hLoop env).of_same rfl rfl
      rfl rfl
  · exact hLoop

end

end BtPeer

------------------------------------------------------------
-- Transfers
------------------------------------------------------------

namespace BtPeer

open PeerServer

/- An event of an upload sends segments of its own chunk. -/
theorem UlEvent.apply_bounded
    (e : UlEvent)
    {ul : Upload}
    (hBounded : ul.Bounded) :
    (e.apply ul).1.Bounded ∧
      (e.apply ul).1.data = ul.data ∧
      ∀ pp ∈ (e.apply ul).2,
        ∃ seq : Word,
          pp = ul.segment seq ∧ 0 < seq.toNat ∧
            seq.toNat ≤ lastSeq := by
  cases e with
  | ack now ts num =>
      have hAck := ulHandleAck_effect now ul num
      have hSend := ulSend_effect ts (hAck.bounded hBounded)
      refine ⟨hSend.bounded, hSend.data.trans hAck.data, ?_⟩
      intro pp hMem
      rcases hSend.segments pp hMem with
        ⟨seq, rfl, hFirst, hLast, _⟩
      refine ⟨seq, ?_, hFirst, hLast⟩
      simp only [Upload.segment, hAck.pIndex, hAck.data]
  | check now ts =>
      have hSend := ulCheckTimeout_effect now ts hBounded
      refine ⟨hSend.bounded, hSend.data, ?_⟩
      intro pp hMem
      rcases hSend.segments pp hMem with
        ⟨seq, hSeg, hFirst, hLast, _⟩
      exact ⟨seq, hSeg, hFirst, hLast⟩

section

variable {heard : Heard}
variable {s start : PeerServer}
variable {p : Nat}
variable {pkt : Packet}

/- The acknowledgements of a download that goes on. -/
theorem download_justified
    (hJust : s.Justified heard start)
    (env : Env)
    {dl : Download}
    {sent : List PktParam}
    (hSame : (s.peer p).dl.SameTarget dl)
    (hOwn : (s.peer p).dl.pIndex = p)
    (hOffer : heard.From p .ihave (fun _ => True))
    (hEarned : dl.rwin.Earned (heard.Segment p))
    (hAcks :
      EarnedAcks (heard.Segment p) (s.peer p).dl.pIndex
        sent) :
    ((s.setPeer p { s.peer p with dl := dl }).sendAll env
        sent).Justified heard start := by
  have hPeer := hJust.peers p
  have hSet :
      (s.setPeer p { s.peer p with dl := dl }).Justified
        heard start :=
    hJust.setPeer
      ⟨hPeer.addr, hPeer.queue,
        fun _ => ⟨hSame.pIndex.trans hOwn, hOffer, hEarned⟩,
        hPeer.upload⟩
  apply hSet.sendAll env
  intro pp hPP d hMem
  rcases hAcks pp hPP with ⟨ack, rfl, hAck⟩
  rw [hOwn] at hMem
  exact ack_justified hOffer hAck hMem

theorem updateDownload_justified
    (hJust : s.Justified heard start)
    (env : Env)
    (hDownloading : (s.peer p).isDownloading = true)
    (hHeard : heard p pkt)
    (hType : PacketType.ofCode pkt.type = some .data) :
    (updateDownload env s p pkt).Justified heard start := by
  rcases (hJust.peers p).download hDownloading with
    ⟨hOwn, hOffer, hEarned⟩
  rcases dlRecv_earned env.rttNow (env.dlTs p) hEarned
      ⟨pkt, hHeard, hType, rfl⟩ with
    ⟨hAfter, hAcks⟩
  exact download_justified hJust env
    (dlRecv_sameTarget env.rttNow (env.dlTs p) (s.peer p).dl
      pkt)
    hOwn hOffer hAfter hAcks

theorem checkDownload_justified
    (hJust : s.Justified heard start)
    (env : Env)
    (hDownloading : (s.peer p).isDownloading = true) :
    (checkDownload env s p).1.Justified heard start := by
  rcases (hJust.peers p).download hDownloading with
    ⟨hOwn, hOffer, hEarned⟩
  rcases dlCheckTimeout_earned (env.dlNow p) (env.dlTs p)
      hEarned with
    ⟨hAfter, hAcks⟩
  exact download_justified hJust env
    (dlCheckTimeout_sameTarget (env.dlNow p) (env.dlTs p)
      (s.peer p).dl)
    hOwn hOffer hAfter hAcks

/- The upload goes on with an event. -/
theorem advance_justified
    (hJust : s.Justified heard start)
    (env : Env)
    (e : UlEvent)
    (hUploading : (s.peer p).isUploading = true) :
    (advance env e s p).Justified heard start := by
  have hPeer := hJust.peers p
  have hAnswers := hPeer.upload hUploading
  rcases e.apply_bounded hAnswers.bounded with
    ⟨hBounded, hData, hSegments⟩
  have hSet :
      (s.setPeer p
          { s.peer p with
            ul := (e.apply (s.peer p).ul).1 }).Justified heard
        start := by
    refine hJust.setPeer
      ⟨hPeer.addr, hPeer.queue, hPeer.download, fun _ =>
        ⟨?_, hBounded, ?_⟩⟩
    · exact (e.apply_pIndex _).trans hAnswers.own
    · rw [hData]
      exact hAnswers.asked
  apply hSet.sendAll env
  intro pp hPP d hMem
  rcases hSegments pp hPP with ⟨seq, rfl, hFirst, hLast⟩
  exact segment_justified hAnswers hFirst hLast hMem

theorem finishUpload_justified
    (hJust : s.Justified heard start)
    (p : Nat) :
    (finishUpload s p).Justified heard start := by
  have hPeer := hJust.peers p
  have hSet :
      (s.setPeer p
          { s.peer p with
            ul := ulDeinit (s.peer p).ul }).Justified heard
        start := by
    refine hJust.setPeer
      ⟨hPeer.addr, hPeer.queue, hPeer.download, ?_⟩
    intro hUploading
    have hAnswers := hPeer.upload hUploading
    have hBounded := hAnswers.bounded
    rcases hAnswers.asked with ⟨hasIndex, hFrom, _⟩
    exact ⟨hAnswers.own,
      ⟨hBounded.sent, hBounded.max, hBounded.acked,
        hBounded.finished⟩,
      hasIndex, hFrom, Or.inl rfl⟩
  exact hSet.of_same rfl rfl rfl rfl

theorem startUpload_justified
    (hJust : s.Justified heard start)
    (env : Env)
    {hasIndex : Nat}
    (hFrom : heard.From p .get (Requests start hasIndex)) :
    (startUpload env s p hasIndex).1.Justified heard start ∧
      (((startUpload env s p hasIndex).1.peer p).ul).Answers
        heard start p := by
  have hPeer := hJust.peers p
  have hMaps := hJust.loadData_maps env hasIndex
  have hFresh :
      (ulInit p hasIndex
          (loadData env s hasIndex)).1.Answers heard start
        p :=
    ⟨rfl, ulInit_bounded p hasIndex _, hasIndex, hFrom,
      hMaps⟩
  unfold startUpload
  split
  · rename_i ul hInit
    rw [hInit] at hFresh
    refine ⟨hJust.setPeer
      ⟨hPeer.addr, hPeer.queue, hPeer.download,
        fun _ => hFresh⟩, ?_⟩
    rw [setPeer_peer, if_pos rfl]
    exact hFresh
  · rename_i ul hInit
    rw [hInit] at hFresh
    have hSend := ulSend_effect (env.sendTs p) hFresh.bounded
    have hSent :
        (ulSend (env.sendTs p) ul).1.Answers heard start p := by
      rcases hFresh.asked with ⟨hasIndex', hFrom', hMaps'⟩
      exact ⟨hSend.pIndex.trans hFresh.own, hSend.bounded,
        hasIndex', hFrom', hSend.data.symm ▸ hMaps'⟩
    let ul' := (ulSend (env.sendTs p) ul).1
    let sent := (ulSend (env.sendTs p) ul).2.1
    have hSet :
        (s.setPeer p { s.peer p with ul := ul' }).Justified
          heard start :=
      hJust.setPeer
        ⟨hPeer.addr, hPeer.queue, hPeer.download,
          fun _ => hSent⟩
    have hAll :
        ((s.setPeer p { s.peer p with ul := ul' }).sendAll env
            sent).Justified heard start := by
      apply hSet.sendAll env
      intro pp hPP d hMem
      rcases hSend.segments pp hPP with
        ⟨seq, rfl, hFirst, hLast, _⟩
      exact segment_justified hFresh hFirst hLast hMem
    have hEnd :
        ((s.setPeer p { s.peer p with ul := ul' }).peer
            p).ul.Answers heard start p := by
      rw [setPeer_peer, if_pos rfl]
      exact hSent
    dsimp only
    split
    · exact ⟨hAll.of_same rfl rfl rfl rfl, hEnd⟩
    · exact ⟨hAll, hEnd⟩

end

end BtPeer

------------------------------------------------------------
-- Packets
------------------------------------------------------------

namespace BtPeer

open PeerServer

section

variable {heard : Heard}
variable {s start : PeerServer}
variable {p : Nat}
variable {pkt : Packet}

theorem handleWhohas_justified
    (hJust : s.Justified heard start)
    (env : Env)
    (hHeard : heard p pkt)
    (hType : PacketType.ofCode pkt.type = some .whohas) :
    (handleWhohas env s pkt p).Justified heard start := by
  have hRaised := raise_justified hJust p
  simp only [handleWhohas]
  split
  · exact hJust
  · split
    · exact hRaised
    · exact sendIhave_justified hRaised env hHeard hType

theorem handleIhave_justified
    (hJust : s.Justified heard start)
    (env : Env)
    (hHeard : heard p pkt)
    (hType : PacketType.ofCode pkt.type = some .ihave) :
    (handleIhave env s pkt p).Justified heard start := by
  have hRaised := raise_justified hJust p
  have hParsed :=
    parseDownload_justified hRaised env hHeard hType
  simp only [handleIhave]
  split
  · exact hRaised
  · split
    · rename_i s' hParse
      rw [hParse] at hParsed
      exact hParsed
    · rename_i s' hParse
      rw [hParse] at hParsed
      split
      · exact hParsed
      · exact trySendGet_justified hParsed env p

theorem handleGet_justified
    (hJust : s.Justified heard start)
    (env : Env)
    (hHeard : heard p pkt)
    (hType : PacketType.ofCode pkt.type = some .get) :
    (handleGet env s pkt p).Justified heard start := by
  simp only [handleGet]
  split
  · exact hJust
  · split
    · exact hJust
    · split
      · exact hJust
      · rename_i hasIndex hIndex
        have hFrom :
            heard.From p .get (Requests start hasIndex) := by
          rw [hJust.haschunks] at hIndex
          exact ⟨pkt, hHeard, hType, hIndex⟩
        have hFree :
            (if (s.peer p).isUploading then finishUpload s p
              else s).Justified heard start := by
          split
          · exact finishUpload_justified hJust p
          · exact hJust
        rcases startUpload_justified hFree env hFrom with
          ⟨hStarted, hAnswers⟩
        have hPeer := hStarted.peers p
        exact hStarted.setPeer
          ⟨hPeer.addr, hPeer.queue, hPeer.download,
            fun _ => hAnswers⟩

theorem dlSaveBuffer_justified
    (hJust : s.Justified heard start)
    (env : Env)
    (dl : Download) :
    (dlSaveBuffer env s dl).1.Justified heard start := by
  unfold dlSaveBuffer
  dsimp only
  split
  · split
    · exact hJust.of_same rfl rfl rfl rfl
    · exact hJust.of_same rfl rfl rfl rfl
  · exact hJust

/- The end of a download saves and releases its chunk. -/
theorem completeDownload_justified
    (hJust : s.Justified heard start)
    (sha1 : List Byte → Nat → Byte)
    (env : Env)
    (p : Nat) :
    (completeDownload sha1 env s p).Justified heard start := by
  have hPeer := hJust.peers p
  have hEnded :
      (s.setPeer p
          { s.peer p with isDownloading := false }).Justified
        heard start :=
    hJust.setPeer
      ⟨hPeer.addr, hPeer.queue, nofun, hPeer.upload⟩
  have hCounted :
      (PeerServer.setPeer { s with dlNum := s.dlNum - 1 } p
          { s.peer p with isDownloading := false }).Justified
        heard start :=
    hEnded.of_same rfl rfl rfl rfl
  have hReset
      {s : PeerServer}
      (hJust : s.Justified heard start)
      (reset : Prop)
      [Decidable reset]
      (i : Nat) :
      (if reset then s.setState i .unfetched
        else s).Justified heard start := by
    split
    · exact hJust.of_same rfl rfl rfl rfl
    · exact hJust
  refine hReset ?_ _ _
  split
  · exact dlSaveBuffer_justified hCounted env _
  · exact hCounted

theorem handleData_justified
    (hJust : s.Justified heard start)
    (sha1 : List Byte → Nat → Byte)
    (env : Env)
    (hHeard : heard p pkt)
    (hType : PacketType.ofCode pkt.type = some .data) :
    (handleData sha1 env s pkt p).Justified heard start := by
  simp only [handleData]
  split
  · exact hJust
  · rename_i hTaken
    rw [Bool.or_eq_true, not_or] at hTaken
    have hDownloading : (s.peer p).isDownloading = true := by
      simpa using hTaken.2
    have hUpdated :=
      updateDownload_justified hJust env hDownloading hHeard
        hType
    split
    · have hDone :=
        completeDownload_justified hUpdated sha1 env p
      split
      · exact refreshChunkDownload_justified hDone env
      · exact hDone
    · exact hUpdated

theorem handleAck_justified
    (hJust : s.Justified heard start)
    (env : Env)
    (pkt : Packet)
    (p : Nat) :
    (handleAck env s pkt p).Justified heard start := by
  simp only [handleAck]
  split
  · exact hJust
  · rename_i hTaken
    rw [Bool.or_eq_true, not_or] at hTaken
    have hUploading : (s.peer p).isUploading = true := by
      simpa using hTaken.2
    have hUpdated :
        (updateUpload env s p pkt).Justified heard start := by
      rw [updateUpload_eq]
      exact advance_justified hJust env _ hUploading
    split
    · have hFinished := finishUpload_justified hUpdated p
      have hPeer := hFinished.peers p
      exact hFinished.setPeer
        ⟨hPeer.addr, hPeer.queue, hPeer.download, nofun⟩
    · exact hUpdated

/- A packet that was accepted from a known address. -/
theorem parsePacket_justified
    (hJust : s.Justified heard start)
    (sha1 : List Byte → Nat → Byte)
    (env : Env)
    (pkt : Packet)
    (sender : Address)
    (hHeard :
      ∀ p, addr2Index start sender = some p → heard p pkt) :
    (parsePacket sha1 env s pkt sender).Justified heard
      start := by
  have hIndex := hJust.samePeers.index sender
  unfold parsePacket
  rw [hIndex]
  split
  · exact hJust
  · rename_i p hFound
    have hFrom := hHeard p hFound
    split
    · rename_i hType
      exact handleWhohas_justified hJust env hFrom hType
    · rename_i hType
      exact handleIhave_justified hJust env hFrom hType
    · rename_i hType
      exact handleGet_justified hJust env hFrom hType
    · rename_i hType
      exact handleData_justified hJust sha1 env hFrom hType
    · exact handleAck_justified hJust env pkt p
    · exact hJust

end

end BtPeer

------------------------------------------------------------
-- Timeouts And Commands
------------------------------------------------------------

namespace BtPeer

open PeerServer

section

variable {heard : Heard}
variable {s start : PeerServer}

theorem die_justified
    (hJust : s.Justified heard start)
    (p : Nat) :
    (s.setPeer p (die (s.peer p))).Justified heard start := by
  have hPeer := hJust.peers p
  exact hJust.setPeer
    ⟨hPeer.addr, hPeer.queue, nofun, nofun⟩

theorem killDownload_justified
    (hJust : s.Justified heard start)
    (dl : Download) :
    (killDownload s dl).Justified heard start :=
  hJust.of_same rfl rfl rfl rfl

theorem abortDownload_justified
    (hJust : s.Justified heard start)
    (p : Nat) :
    (abortDownload s p).Justified heard start := by
  have hKilled :=
    killDownload_justified hJust (s.peer p).dl
  unfold abortDownload
  dsimp only
  split
  · exact die_justified (finishUpload_justified hKilled p) p
  · exact die_justified hKilled p

theorem abortUpload_justified
    (hJust : s.Justified heard start)
    (p : Nat) :
    (abortUpload s p).Justified heard start := by
  have hFinished := finishUpload_justified hJust p
  unfold abortUpload
  dsimp only
  split
  · exact die_justified (killDownload_justified hFinished _) p
  · exact die_justified hFinished p

theorem checkPeer_justified
    (hJust : s.Justified heard start)
    (env : Env)
    (p : Nat) :
    (checkPeer env s p).Justified heard start := by
  have hDown : (checkDownloading env s p).Justified heard
      start := by
    unfold checkDownloading
    split
    · rename_i hDownloading
      have hChecked :=
        checkDownload_justified hJust env hDownloading
      split
      rename_i s' cnt hOut
      rw [hOut] at hChecked
      split
      · exact abortDownload_justified hChecked p
      · exact hChecked
    · exact hJust
  have hUp
      {s : PeerServer}
      (hJust : s.Justified heard start) :
      (checkUploading env s p).Justified heard start := by
    unfold checkUploading
    split
    · rename_i hUploading
      have hChecked :
          (checkUpload env s p).1.Justified heard start := by
        rw [checkUpload_eq]
        exact advance_justified hJust env _ hUploading
      split
      rename_i s' cnt hOut
      rw [hOut] at hChecked
      split
      · exact abortUpload_justified hChecked p
      · exact hChecked
    · exact hJust
  unfold checkPeer
  split
  · exact hUp hDown
  · exact hJust

theorem checkLoop_justified
    (env : Env)
    (k i : Nat)
    {s : PeerServer}
    (hJust : s.Justified heard start) :
    (checkLoop env k i s).Justified heard start := by
  induction k generalizing i s with
  | zero => exact hJust
  | succ k ih =>
      exact ih (i + 1) (checkPeer_justified hJust env i)

theorem checkAllTimeout_justified
    (hJust : s.Justified heard start)
    (env : Env) :
    (checkAllTimeout env s).Justified heard start := by
  have hChecked :=
    checkLoop_justified env s.peerlist.count 0 hJust
  simp only [checkAllTimeout]
  split
  · exact refreshChunkDownload_justified hChecked env
  · exact hChecked

theorem processGet_justified
    (hJust : s.Justified heard start)
    (env : Env)
    (chunkfile outputfile : CString)
    (text : Option (List Char)) :
    (processGet env s chunkfile outputfile text).Justified
      heard start := by
  unfold processGet
  dsimp only
  split
  · exact hJust
  · split
    · exact hJust
    · split
      · exact hJust.of_same rfl rfl rfl rfl
      · rename_i getchunks hParse
        let listed : PeerServer :=
          { s with
            dlFilename := outputfile
            getchunkFile := chunkfile
            getchunks := getchunks
            dlRemain := getchunks.count }
        have hListed : listed.Justified heard start :=
          hJust.of_same rfl rfl rfl rfl
        exact (sendWhohas_justified hListed env).of_same rfl
          rfl rfl rfl

end

/- What an event lets the server hear, by its first peers. -/
def HeardAt
    (start : PeerServer)
    (e : ServerEvent) : Heard :=
  fun p pkt =>
    ∃ env sender,
      e = .packet env pkt sender ∧ validPacket pkt = true ∧
        addr2Index start sender = some p

/- A step keeps the invariant with what it lets hear. -/
theorem step_justified
    {heard : Heard}
    {s start : PeerServer}
    (hJust : s.Justified heard start)
    (sha1 : List Byte → Nat → Byte)
    (e : ServerEvent)
    (hHeard : ∀ p pkt, HeardAt start e p pkt → heard p pkt) :
    (s.step sha1 e).Justified heard start := by
  cases e with
  | packet env pkt sender =>
      simp only [PeerServer.step]
      split
      · rename_i hValid
        apply parsePacket_justified hJust
        intro p hFound
        exact hHeard p pkt ⟨env, sender, rfl, hValid, hFound⟩
      · exact hJust
  | timeout env => exact checkAllTimeout_justified hJust env
  | command env chunkfile outputfile text =>
      exact processGet_justified hJust env chunkfile outputfile
        text

end BtPeer

------------------------------------------------------------
-- Whole Runs
------------------------------------------------------------

namespace BtPeer

open EventMachine PeerServer

/- What was heard in the events of a run. -/
def HeardIn
    (start : PeerServer)
    (es : List ServerEvent) : Heard :=
  fun p pkt => ∃ e ∈ es, HeardAt start e p pkt

/- A server that has just been initialized. -/
theorem peerInit_justified
    (heard : Heard)
    (addrs : List Address)
    (masterChunk : Nat → Byte)
    (haschunks : ChunkList)
    (maxConn : Int)
    (files : CString → ByteMemory.SparseFile Byte) :
    let start :=
      peerInit addrs masterChunk haschunks maxConn files
    start.Justified heard start where
  haschunks := rfl
  masterChunk := rfl
  count := rfl
  peers := by
    intro p
    exact
      ⟨rfl, List.forall_mem_nil _, nofun, nofun⟩
  sent := List.forall_mem_nil _

/-
  After any events, everything that the server knows and
  sent is justified by what it heard in them.
-/
theorem run_justified
    (sha1 : List Byte → Nat → Byte)
    (addrs : List Address)
    (masterChunk : Nat → Byte)
    (haschunks : ChunkList)
    (maxConn : Int)
    (files : CString → ByteMemory.SparseFile Byte)
    (es : List ServerEvent) :
    let start :=
      peerInit addrs masterChunk haschunks maxConn files
    (run (PeerServer.step sha1) start es).Justified
      (HeardIn start es) start := by
  intro start
  refine
    run_invariant_along
      (fun s : PeerServer =>
        s.Justified (HeardIn start es) start)
      (fun s e hJust hHeard =>
        step_justified hJust sha1 e hHeard)
      (peerInit_justified _ _ _ _ _ _)
      (along_of_forall start ?_)
  intro e hMem p pkt hAt
  exact ⟨e, hMem, hAt⟩

/- What is read from a packet is spelled by `binary2hex`. -/
theorem isHashString_of_mem
    {pkt : Packet}
    {hash : CString}
    (hMem : hash ∈ pkt.hashes) :
    IsHashString hash := by
  rcases List.mem_map.mp hMem with ⟨n, _, rfl⟩
  exact ⟨_, rfl⟩

end BtPeer

------------------------------------------------------------
-- A Run With Every Type
------------------------------------------------------------

namespace BtPeer

open EventMachine PeerServer

/-
  The sample peer asks for the chunk and gets it, and the
  server fetches a chunk with the same hash from it.
-/
def sampleDialogue : List ServerEvent :=
  [.packet sampleEnv (samplePacket .whohas) sampleAddress,
    .packet sampleEnv (samplePacket .get) sampleAddress,
    .command sampleEnv [] [] (some ('0' :: ' ' :: zeroHash)),
    .packet sampleEnv (samplePacket .ihave) sampleAddress,
    .packet sampleEnv (sampleSegment 0) sampleAddress]

def sampleSent : List Datagram :=
  (run (PeerServer.step (fun _ _ => 0)) sampleServer
    sampleDialogue).sent

theorem sampleSent_types :
    sampleSent.map (fun d => PacketType.ofCode d.pkt.type) =
      [some .ihave, some .data, some .whohas, some .get,
        some .ack] := by
  decide

/- One datagram of each type was sent. -/
theorem exists_sampleSent
    {t : PacketType}
    (hType :
      some t ∈
        [some PacketType.ihave, some .data, some .whohas,
          some .get, some .ack]) :
    ∃ d ∈ sampleSent,
      PacketType.ofCode d.pkt.type = some t := by
  rw [← sampleSent_types] at hType
  rcases List.mem_map.mp hType with ⟨d, hMem, hCode⟩
  exact ⟨d, hMem, hCode⟩

end BtPeer

------------------------------------------------------------
-- Every Packet Has A Cause
------------------------------------------------------------

namespace BtPeer

open EventMachine PeerServer

/- The events bring a packet from `p` that meets `ok`. -/
def Brings
    (start : PeerServer)
    (es : List ServerEvent)
    (p : Nat)
    (t : PacketType)
    (ok : Packet → Prop) : Prop :=
  ∃ env pkt sender,
    ServerEvent.packet env pkt sender ∈ es ∧
      validPacket pkt = true ∧
      addr2Index start sender = some p ∧
      PacketType.ofCode pkt.type = some t ∧ ok pkt

theorem Heard.From.brings
    {start : PeerServer}
    {es : List ServerEvent}
    {p : Nat}
    {t : PacketType}
    {ok : Packet → Prop}
    (hFrom : (HeardIn start es).From p t ok) :
    Brings start es p t ok := by
  rcases hFrom with
    ⟨pkt, ⟨e, hMem, env, sender, rfl, hValid, hIndex⟩, hRest⟩
  exact ⟨env, pkt, sender, hMem, hValid, hIndex, hRest⟩

/- A peer that was heard is on the list. -/
theorem Heard.From.listed
    {start : PeerServer}
    {es : List ServerEvent}
    {p : Nat}
    {t : PacketType}
    {ok : Packet → Prop}
    (hFrom : (HeardIn start es).From p t ok) :
    p < start.peerlist.count := by
  rcases hFrom.brings with ⟨_, _, _, _, _, hIndex, _⟩
  exact addr2Index_lt hIndex

/- Each cause names a peer of the list. -/
theorem Datagram.Justified.listed
    {start : PeerServer}
    {es : List ServerEvent}
    {d : Datagram}
    (hJustified : d.Justified (HeardIn start es) start) :
    d.dest < start.peerlist.count ∧
      PacketType.ofCode d.pkt.type ∈
        [some .whohas, some .ihave, some .get, some .data,
          some .ack] := by
  have hCaused := hJustified.caused
  unfold Datagram.Caused at hCaused
  split at hCaused
  · rename_i hType
    rw [hType]
    exact ⟨hCaused.1, by decide⟩
  · rename_i hType
    rcases hCaused with ⟨hashes, _, hSome, hEach⟩
    rcases List.exists_mem_of_ne_nil hashes hSome with
      ⟨hash, hMem⟩
    rw [hType]
    exact ⟨(hEach hash hMem).2.listed, by decide⟩
  · rename_i hType
    rcases hCaused with ⟨_, _, hFrom⟩
    rw [hType]
    exact ⟨hFrom.listed, by decide⟩
  · rename_i hType
    rcases hCaused with ⟨_, _, _, hFrom, _⟩
    rw [hType]
    exact ⟨hFrom.listed, by decide⟩
  · rename_i hType
    rw [hType]
    exact ⟨hCaused.1.listed, by decide⟩
  · exact hCaused.elim

/-
  Every datagram goes to a peer of the list, has one of the
  five types that the server handles, and fits the buffer of
  its receiver.
-/
theorem sent_listed
    (sha1 : List Byte → Nat → Byte)
    (addrs : List Address)
    (masterChunk : Nat → Byte)
    (haschunks : ChunkList)
    (maxConn : Int)
    (files : CString → ByteMemory.SparseFile Byte)
    (es : List ServerEvent)
    (d : Datagram)
    (hSent :
      d ∈
        (run (PeerServer.step sha1)
          (peerInit addrs masterChunk haschunks maxConn files)
          es).sent) :
    d.dest < addrs.length ∧
      PacketType.ofCode d.pkt.type ∈
        [some .whohas, some .ihave, some .get, some .data,
          some .ack] ∧
      headerSize ≤ d.pkt.pktLen.toNat ∧
      d.pkt.pktLen.toNat ≤ packetSize := by
  have hJustified :=
    (run_justified sha1 addrs masterChunk haschunks maxConn
      files es).sent d hSent
  rcases hJustified.listed with ⟨hListed, hType⟩
  exact ⟨hListed, hType, hJustified.header, hJustified.fits⟩

theorem sent_listed_sample :
    ∃ d ∈ sampleSent,
      d.dest < 1 ∧
        PacketType.ofCode d.pkt.type ∈
          [some .whohas, some .ihave, some .get, some .data,
            some .ack] ∧
        headerSize ≤ d.pkt.pktLen.toNat ∧
        d.pkt.pktLen.toNat ≤ packetSize := by
  rcases exists_sampleSent (t := .whohas) (by decide) with
    ⟨d, hMem, _⟩
  exact ⟨d, hMem,
    sent_listed (fun _ _ => 0) [sampleAddress] (fun _ => 7)
      oneChunk 1 (fun _ _ => none) sampleDialogue d hMem⟩

/-
  An IHAVE is never empty; a hash is offered to a peer only
  when the server has it and the peer has asked for it.
-/
theorem ihave_asked
    (sha1 : List Byte → Nat → Byte)
    (addrs : List Address)
    (masterChunk : Nat → Byte)
    (haschunks : ChunkList)
    (maxConn : Int)
    (files : CString → ByteMemory.SparseFile Byte)
    (es : List ServerEvent)
    (d : Datagram)
    (hSent :
      d ∈
        (run (PeerServer.step sha1)
          (peerInit addrs masterChunk haschunks maxConn files)
          es).sent)
    (hType : PacketType.ofCode d.pkt.type = some .ihave) :
    let start :=
      peerInit addrs masterChunk haschunks maxConn files
    d.pkt.hashes ≠ [] ∧
      ∀ hash ∈ d.pkt.hashes,
        (hash2Index haschunks hash).isSome = true ∧
          Brings start es d.dest .whohas
            (fun whohas => hash ∈ whohas.hashes) := by
  intro start
  have hCaused :=
    ((run_justified sha1 addrs masterChunk haschunks maxConn
      files es).sent d hSent).caused
  rw [Datagram.Caused, hType] at hCaused
  rcases hCaused with ⟨hashes, hCarries, hSome, hEach⟩
  rw [hCarries.hashes_eq (by simp)]
  refine ⟨fun hNone => hSome (List.map_eq_nil_iff.mp hNone),
    ?_⟩
  intro hash hMem
  rcases List.mem_map.mp hMem with ⟨offered, hOffered, rfl⟩
  rcases hEach offered hOffered with ⟨hHas, hFrom⟩
  have hSpelled : spelled offered = offered := by
    rcases hFrom with ⟨pkt, _, _, hAsked⟩
    exact (isHashString_of_mem hAsked).spelled_eq
  rw [hSpelled]
  exact ⟨hHas, hFrom.brings⟩

theorem ihave_asked_sample :
    ∃ d ∈ sampleSent,
      PacketType.ofCode d.pkt.type = some .ihave ∧
        d.pkt.hashes ≠ [] ∧
        ∀ hash ∈ d.pkt.hashes,
          (hash2Index oneChunk hash).isSome = true ∧
            Brings sampleServer sampleDialogue d.dest .whohas
              (fun whohas => hash ∈ whohas.hashes) := by
  rcases exists_sampleSent (t := .ihave) (by decide) with
    ⟨d, hMem, hType⟩
  exact ⟨d, hMem, hType,
    ihave_asked (fun _ _ => 0) [sampleAddress] (fun _ => 7)
      oneChunk 1 (fun _ _ => none) sampleDialogue d hMem
      hType⟩

/- A GET asks a peer for a hash that the peer announced. -/
theorem get_announced
    (sha1 : List Byte → Nat → Byte)
    (addrs : List Address)
    (masterChunk : Nat → Byte)
    (haschunks : ChunkList)
    (maxConn : Int)
    (files : CString → ByteMemory.SparseFile Byte)
    (es : List ServerEvent)
    (d : Datagram)
    (hSent :
      d ∈
        (run (PeerServer.step sha1)
          (peerInit addrs masterChunk haschunks maxConn files)
          es).sent)
    (hType : PacketType.ofCode d.pkt.type = some .get) :
    let start :=
      peerInit addrs masterChunk haschunks maxConn files
    Brings start es d.dest .ihave
      (fun ihave => d.pkt.getHash 0 ∈ ihave.hashes) := by
  intro start
  have hCaused :=
    ((run_justified sha1 addrs masterChunk haschunks maxConn
      files es).sent d hSent).caused
  rw [Datagram.Caused, hType] at hCaused
  rcases hCaused with ⟨hash, hCarries, hFrom⟩
  have hRead : d.pkt.getHash 0 = spelled hash :=
    hCarries.getHash_eq (Nat.zero_lt_succ 0)
  have hSpelled : spelled hash = hash := by
    rcases hFrom with ⟨pkt, _, _, hNamed⟩
    exact (isHashString_of_mem hNamed).spelled_eq
  rw [hRead, hSpelled]
  exact hFrom.brings

theorem get_announced_sample :
    ∃ d ∈ sampleSent,
      PacketType.ofCode d.pkt.type = some .get ∧
        Brings sampleServer sampleDialogue d.dest .ihave
          (fun ihave => d.pkt.getHash 0 ∈ ihave.hashes) := by
  rcases exists_sampleSent (t := .get) (by decide) with
    ⟨d, hMem, hType⟩
  exact ⟨d, hMem, hType,
    get_announced (fun _ _ => 0) [sampleAddress] (fun _ => 7)
      oneChunk 1 (fun _ _ => none) sampleDialogue d hMem
      hType⟩

/-
  A peer is sent segments only of the chunk that it asked
  for by a GET; a DATA packet that carries no segment of it
  is empty.
-/
theorem data_requested
    (sha1 : List Byte → Nat → Byte)
    (addrs : List Address)
    (masterChunk : Nat → Byte)
    (haschunks : ChunkList)
    (maxConn : Int)
    (files : CString → ByteMemory.SparseFile Byte)
    (es : List ServerEvent)
    (d : Datagram)
    (hSent :
      d ∈
        (run (PeerServer.step sha1)
          (peerInit addrs masterChunk haschunks maxConn files)
          es).sent)
    (hType : PacketType.ofCode d.pkt.type = some .data) :
    let start :=
      peerInit addrs masterChunk haschunks maxConn files
    1 ≤ d.pkt.seq.toNat ∧ d.pkt.seq.toNat ≤ lastSeq ∧
      ∃ hasIndex,
        Brings start es d.dest .get
            (Requests start hasIndex) ∧
          (d.pkt.getDataLen = 0 ∨
            (0 ≤ getChunkOffset start hasIndex ∧
              CarriesSegment (chunkBytes start hasIndex)
                d.pkt)) := by
  intro start
  have hCaused :=
    ((run_justified sha1 addrs masterChunk haschunks maxConn
      files es).sent d hSent).caused
  rw [Datagram.Caused, hType] at hCaused
  rcases hCaused with
    ⟨hFirst, hLast, hasIndex, hFrom, hData⟩
  exact ⟨hFirst, hLast, hasIndex, hFrom.brings, hData⟩

theorem data_requested_sample :
    ∃ d ∈ sampleSent,
      PacketType.ofCode d.pkt.type = some .data ∧
        1 ≤ d.pkt.seq.toNat ∧ d.pkt.seq.toNat ≤ lastSeq ∧
          ∃ hasIndex,
            Brings sampleServer sampleDialogue d.dest .get
                (Requests sampleServer hasIndex) ∧
              (d.pkt.getDataLen = 0 ∨
                (0 ≤ getChunkOffset sampleServer hasIndex ∧
                  CarriesSegment
                    (chunkBytes sampleServer hasIndex)
                    d.pkt)) := by
  rcases exists_sampleSent (t := .data) (by decide) with
    ⟨d, hMem, hType⟩
  exact ⟨d, hMem, hType,
    data_requested (fun _ _ => 0) [sampleAddress]
      (fun _ => 7) oneChunk 1 (fun _ _ => none)
      sampleDialogue d hMem hType⟩

/-
  An ACK goes to a peer that made an offer, and covers only
  segments that came from it, whatever the lengths and
  numbers of the segments.
-/
theorem ack_received
    (sha1 : List Byte → Nat → Byte)
    (addrs : List Address)
    (masterChunk : Nat → Byte)
    (haschunks : ChunkList)
    (maxConn : Int)
    (files : CString → ByteMemory.SparseFile Byte)
    (es : List ServerEvent)
    (d : Datagram)
    (hSent :
      d ∈
        (run (PeerServer.step sha1)
          (peerInit addrs masterChunk haschunks maxConn files)
          es).sent)
    (hType : PacketType.ofCode d.pkt.type = some .ack) :
    let start :=
      peerInit addrs masterChunk haschunks maxConn files
    Brings start es d.dest .ihave (fun _ => True) ∧
      ∀ n, 1 ≤ n → n ≤ d.pkt.ack.toNat →
        Brings start es d.dest .data
          (fun data => data.seq.toNat = n) := by
  intro start
  have hCaused :=
    ((run_justified sha1 addrs masterChunk haschunks maxConn
      files es).sent d hSent).caused
  rw [Datagram.Caused, hType] at hCaused
  refine ⟨hCaused.1.brings, ?_⟩
  intro n hFirst hLe
  exact Heard.From.brings (hCaused.2 n hFirst hLe)

theorem ack_received_sample :
    ∃ d ∈ sampleSent,
      PacketType.ofCode d.pkt.type = some .ack ∧
        Brings sampleServer sampleDialogue d.dest .ihave
            (fun _ => True) ∧
          ∀ n, 1 ≤ n → n ≤ d.pkt.ack.toNat →
            Brings sampleServer sampleDialogue d.dest .data
              (fun data => data.seq.toNat = n) := by
  rcases exists_sampleSent (t := .ack) (by decide) with
    ⟨d, hMem, hType⟩
  exact ⟨d, hMem, hType,
    ack_received (fun _ _ => 0) [sampleAddress] (fun _ => 7)
      oneChunk 1 (fun _ _ => none) sampleDialogue d hMem
      hType⟩

end BtPeer
