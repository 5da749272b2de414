import BtPeer.Packet

/-
  `send_packet` of packet.c: building the packets of one
  call and handing them to every addressed peer.

  The packet lives on the stack uninitialized; `stack` gives
  its payload bytes. It is reused from one packet of a call
  to the next, and only its first `pkt_len` bytes are sent.

  Key definitions include:
    * `PktParam`
    * `packetNum`
    * `buildPackets`
    * `Datagram`
    * `sendPacket`
-/

------------------------------------------------------------
-- Parameters
------------------------------------------------------------

namespace BtPeer

/- `pkt_param_t` without the socket. -/
structure PktParam where
  pIndex : Int
  pCount : Int
  c : Option ChunkList
  cIndex : Int
  cCount : Int
  type : PacketType
  seq : Word
  ack : Word
  payload : Option (Nat → Byte)
  payloadSize : Nat

/- `PKT_PARAM_CLEAR` -/
def PktParam.clear : PktParam where
  pIndex := 0
  pCount := 0
  c := none
  cIndex := 0
  cCount := 0
  type := .whohas
  seq := 0
  ack := 0
  payload := none
  payloadSize := 0

namespace PktParam

/- The types that `send_packet` calls `nondata`. -/
def nondata (pp : PktParam) : Bool :=
  pp.type = .whohas || pp.type = .ihave ||
    pp.type = .get || pp.type = .denied

/- `p_count`, with the number of all peers for a broadcast. -/
def peerCount
    (pp : PktParam)
    (count : Nat) : Nat :=
  if pp.pCount < 0 then count else pp.pCount.toNat

/- `c_count`, with the length of the list for a negative one. -/
def chunkCount
    (pp : PktParam)
    (c : ChunkList) : Nat :=
  if pp.cCount < 0 then c.count else pp.cCount.toNat

end PktParam

/- The number of packets needed for `cCount` chunks. -/
def packetNum (cCount : Nat) : Nat :=
  (cCount * sha1HashSize + maxPayloadSize - 1) /
    maxPayloadSize

end BtPeer

------------------------------------------------------------
-- Building The Packets
------------------------------------------------------------

namespace BtPeer

/- The header fields that every packet starts from. -/
def setHeader
    (pp : PktParam)
    (pkt : Packet) : Packet :=
  { pkt with
    magic := magicNumber
    version := versionNumber
    type := pp.type.code
    hdrLen := BitVec.ofNat 16 headerSize
    pktLen := BitVec.ofNat 16 headerSize
    seq := if pp.type = .data then pp.seq else 0
    ack := if pp.type = .ack then pp.ack else 0 }

/-
  Whether the chunk under the cursor `j` is placed. A WHOHAS
  asks for the unfetched chunks only, judged by the state in
  `getchunks`.
-/
def selected
    (getchunks : ChunkList)
    (pp : PktParam)
    (j : Nat) : Bool :=
  if pp.type = .whohas then
    decide
      ((getchunks.chunks (pp.cIndex.toNat + j)).state =
        .unfetched)
  else decide (pp.type = .ihave ∨ pp.type = .get)

/-
  The loop over the chunks of one packet: `k` chunks from
  the cursor `j` on, `cnt` hashes placed so far.
-/
def addHashes
    (getchunks c : ChunkList)
    (pp : PktParam) :
    Nat → Nat → Nat → Packet → Nat × Packet
| 0, _, cnt, pkt => (cnt, pkt)
| k + 1, j, cnt, pkt =>
    if selected getchunks pp j then
      addHashes getchunks c pp k (j + 1) (cnt + 1)
        (pkt.setHash cnt
          (c.chunks (pp.cIndex.toNat + j)).sha1)
    else addHashes getchunks c pp k (j + 1) cnt pkt

/-
  The packet with chunks whose cursor runs from `j` to
  `limit`.
-/
def hashPacket
    (getchunks c : ChunkList)
    (pp : PktParam)
    (j limit : Nat)
    (pkt : Packet) : Packet :=
  let base :=
    if pp.type = .get then headerSize else headerSize + 4
  let filled :=
    addHashes getchunks c pp (limit - j) j 0
      (setHeader pp pkt)
  let pkt :=
    { filled.2 with
      pktLen :=
        BitVec.ofNat 16 (base + sha1HashSize * filled.1) }
  if pp.type = .get then pkt
  else pkt.setChunkCnt filled.1

/-
  The loop over the packets: `k` packets from packet `i` on,
  the chunk cursor at `j`.
-/
def hashPackets
    (getchunks c : ChunkList)
    (pp : PktParam) :
    Nat → Nat → Nat → Packet → List Packet
| 0, _, _, _ => []
| k + 1, i, j, pkt =>
    let limit :=
      min (pp.chunkCount c) (hashNumPkt * (i + 1))
    let pkt := hashPacket getchunks c pp j limit pkt
    pkt ::
      hashPackets getchunks c pp k (i + 1) (max j limit) pkt

/- The one packet of a call that carries no chunks. -/
def plainPacket
    (pp : PktParam)
    (pkt : Packet) : List Packet :=
  let pkt := setHeader pp pkt
  match pp.type, pp.payload with
  | .data, some payload =>
      if maxPayloadSize < pp.payloadSize then []
      else
        [{ pkt with
            payload :=
              ByteMemory.memcpy pkt.payload 0 payload
                pp.payloadSize
            pktLen :=
              BitVec.ofNat 16
                (headerSize + pp.payloadSize) }]
  | _, _ => [pkt]

/- The uninitialized packet on the stack of `send_packet`. -/
def stackPacket (stack : Nat → Byte) : Packet where
  magic := 0
  version := 0
  type := 0
  hdrLen := 0
  pktLen := 0
  seq := 0
  ack := 0
  payload := stack

/- The packets that one call of `send_packet` encodes. -/
def buildPackets
    (getchunks : ChunkList)
    (stack : Nat → Byte)
    (pp : PktParam) : List Packet :=
  if pp.pIndex < 0 ∨ pp.cIndex < 0 then []
  else
    match pp.c, pp.nondata with
    | some c, true =>
        hashPackets getchunks c pp
          (packetNum (pp.chunkCount c)) 0 0
          (stackPacket stack)
    | _, _ => plainPacket pp (stackPacket stack)

end BtPeer

------------------------------------------------------------
-- Sending
------------------------------------------------------------

namespace BtPeer

/- A packet handed to `sendto` for the peer at index `dest`. -/
structure Datagram where
  dest : Nat
  pkt : Packet

/- `send_udp` -/
def sendUdp
    (pIndex pCount : Nat)
    (pkt : Packet) : List Datagram :=
  (List.range pCount).map (fun i => ⟨pIndex + i, pkt⟩)

/-
  `send_packet`: the datagrams of one call, in order, by a
  server with `peerCount` peers.
-/
def sendPacket
    (getchunks : ChunkList)
    (peerCount : Nat)
    (stack : Nat → Byte)
    (pp : PktParam) : List Datagram :=
  (buildPackets getchunks stack pp).flatMap
    (sendUdp pp.pIndex.toNat (pp.peerCount peerCount))

end BtPeer

------------------------------------------------------------
-- Parameters Of The Callers
------------------------------------------------------------

namespace BtPeer

/- `send_whohas`: the whole get-chunk list, to every peer. -/
def whohasParam (getchunks : ChunkList) : PktParam :=
  { PktParam.clear with
    pCount := -1
    c := some getchunks
    cCount := -1
    type := .whohas }

/- `send_ihave`: the whole answer list, to one peer. -/
def ihaveParam
    (ihavechunks : ChunkList)
    (pIndex : Nat) : PktParam :=
  { PktParam.clear with
    pIndex := pIndex
    pCount := 1
    c := some ihavechunks
    cCount := -1
    type := .ihave }

/- `send_get`: one chunk of the get-chunk list. -/
def getParam
    (getchunks : ChunkList)
    (pIndex getIndex : Nat) : PktParam :=
  { PktParam.clear with
    pIndex := pIndex
    pCount := 1
    c := some getchunks
    cIndex := getIndex
    cCount := 1
    type := .get }

/- `send_ack` of download.c. -/
def ackParam
    (pIndex : Nat)
    (ack : Word) : PktParam :=
  { PktParam.clear with
    pIndex := pIndex
    pCount := 1
    ack := ack
    type := .ack }

/- One segment of `ul_send`. -/
def dataParam
    (pIndex : Nat)
    (seq : Word)
    (payload : Option (Nat → Byte)) : PktParam :=
  { PktParam.clear with
    pIndex := pIndex
    pCount := 1
    seq := seq
    payload := payload
    payloadSize := payloadSize
    type := .data }

end BtPeer
