import BtPeer.Server.PeerServer

/-
  The packet handler (parse_packet.c), the commands (peer.c)
  and the server as an event machine.

  Key definitions include:
    * `parsePacket`
    * `processGet`
    * `ServerEvent`
    * `PeerServer.step`
    * `peerInit`
-/

------------------------------------------------------------
-- Packets
------------------------------------------------------------

namespace BtPeer

/- The WHOHAS branch of `parse_packet`. -/
def handleWhohas
    (env : Env)
    (s : PeerServer)
    (pkt : Packet)
    (p : Nat) : PeerServer :=
  if s.maxConn ≤ s.ulNum then s
  else
    let s := s.setPeer p { s.peer p with isAlive := true }
    if (s.peer p).isUploading then s
    else sendIhave env s pkt p

/- The IHAVE branch of `parse_packet`. -/
def handleIhave
    (env : Env)
    (s : PeerServer)
    (pkt : Packet)
    (p : Nat) : PeerServer :=
  let s := s.setPeer p { s.peer p with isAlive := true }
  if (s.peer p).isDownloading then s
  else
    match parseDownload env s pkt p with
    | (s, false) => s
    | (s, true) =>
        if s.maxConn ≤ s.dlNum then s
        else trySendGet env s p

/-
  The GET branch of `parse_packet`. What `start_upload`
  returns is ignored.
-/
def handleGet
    (env : Env)
    (s : PeerServer)
    (pkt : Packet)
    (p : Nat) : PeerServer :=
  if ! (s.peer p).isAlive then s
  else if s.maxConn ≤ s.ulNum then s
  else
    match hash2Index s.haschunks (pkt.getHash 0) with
    | none => s
    | some hasIndex =>
        let s :=
          if (s.peer p).isUploading then finishUpload s p
          else s
        match startUpload env s p hasIndex with
        | (s, _) =>
            s.setPeer p { s.peer p with isUploading := true }

/-
  The end of a download in the DATA branch: the chunk is
  saved when its hash is right, and its state is reset when
  it was not fetched.
-/
def completeDownload
    (sha1 : List Byte → Nat → Byte)
    (env : Env)
    (s : PeerServer)
    (p : Nat) : PeerServer :=
  let s := { s with dlNum := s.dlNum - 1 }
  let s :=
    s.setPeer p { s.peer p with isDownloading := false }
  let dl := (s.peer p).dl
  let s :=
    if checkHashSucceed sha1 s dl then (dlSaveBuffer env s dl).1
    else s
  if (s.getchunks.chunks dl.getIndex).state ≠ .fetched then
    s.setState dl.getIndex .unfetched
  else s

/- The DATA branch of `parse_packet`. -/
def handleData
    (sha1 : List Byte → Nat → Byte)
    (env : Env)
    (s : PeerServer)
    (pkt : Packet)
    (p : Nat) : PeerServer :=
  if ! (s.peer p).isAlive || ! (s.peer p).isDownloading then s
  else
    let s := updateDownload env s p pkt
    if (s.peer p).dl.finished then
      let s := completeDownload sha1 env s p
      if 0 < s.dlRemain then refreshChunkDownload env s else s
    else s

/- The ACK branch of `parse_packet`. -/
def handleAck
    (env : Env)
    (s : PeerServer)
    (pkt : Packet)
    (p : Nat) : PeerServer :=
  if ! (s.peer p).isAlive || ! (s.peer p).isUploading then s
  else
    let s := updateUpload env s p pkt
    if (s.peer p).ul.finished then
      let s := finishUpload s p
      s.setPeer p { s.peer p with isUploading := false }
    else s

/- `parse_packet` on a packet from the address `from`. -/
def parsePacket
    (sha1 : List Byte → Nat → Byte)
    (env : Env)
    (s : PeerServer)
    (pkt : Packet)
    (sender : Address) : PeerServer :=
  match addr2Index s sender with
  | none => s
  | some p =>
      match PacketType.ofCode pkt.type with
      | some .whohas => handleWhohas env s pkt p
      | some .ihave => handleIhave env s pkt p
      | some .get => handleGet env s pkt p
      | some .data => handleData sha1 env s pkt p
      | some .ack => handleAck env s pkt p
      | _ => s

end BtPeer

------------------------------------------------------------
-- Commands
------------------------------------------------------------

namespace BtPeer

/-
  `process_get`. `text` is the contents of the chunk file,
  none when it cannot be opened.
-/
def processGet
    (env : Env)
    (s : PeerServer)
    (chunkfile outputfile : CString)
    (text : Option (List Char)) : PeerServer :=
  if btFilenameLen ≤ outputfile.length then s
  else if btFilenameLen ≤ chunkfile.length then s
  else
    let s :=
      { s with
        dlFilename := outputfile
        getchunkFile := chunkfile }
    match parseChunk s.getchunks text with
    | none => s
    | some getchunks =>
        let s :=
          { s with
            getchunks := getchunks
            dlRemain := getchunks.count }
        { sendWhohas env s with lastWhohas := env.whohasTs }

end BtPeer

------------------------------------------------------------
-- The Event Machine
------------------------------------------------------------

namespace BtPeer

/-
  What wakes the server up: a packet from the socket, the
  timeout check, or a GET command of the user.
-/
inductive ServerEvent where
  | packet
      (env : Env)
      (pkt : Packet)
      (sender : Address)
  | timeout
      (env : Env)
  | command
      (env : Env)
      (chunkfile outputfile : CString)
      (text : Option (List Char))

/- One event; an invalid packet is dropped. -/
def PeerServer.step
    (sha1 : List Byte → Nat → Byte)
    (s : PeerServer) : ServerEvent → PeerServer
| .packet env pkt sender =>
    if validPacket pkt then parsePacket sha1 env s pkt sender
    else s
| .timeout env => checkAllTimeout env s
| .command env chunkfile outputfile text =>
    processGet env s chunkfile outputfile text

/-
  The state after `peer_init`, on zeroed memory, with the
  configured peers and files.
-/
def peerInit
    (addrs : List Address)
    (masterChunk : Nat → Byte)
    (haschunks : ChunkList)
    (maxConn : Int)
    (files : CString → ByteMemory.SparseFile Byte) :
    PeerServer where
  peerlist :=
    { count := addrs.length
      peers := fun i => initPeer (addrs.getD i ⟨0, 0⟩) }
  masterChunk := masterChunk
  haschunks := haschunks
  getchunks := ChunkList.zero
  ihavechunks := ChunkList.zero
  maxConn := maxConn
  dlNum := 0
  ulNum := 0
  dlRemain := 0
  dlFilename := []
  getchunkFile := []
  lastWhohas := 0
  sent := []
  got := []
  files := files

end BtPeer

------------------------------------------------------------
-- Sample Events
------------------------------------------------------------

namespace BtPeer

/- Every call succeeds, and every clock reads 1. -/
def sampleEnv : Env where
  stack := fun _ => 0
  dlInitTs := fun _ => 1
  dlTs := fun _ => 1
  dlNow := fun _ => 1
  ulNow := fun _ => 1
  sendTs := fun _ _ => 1
  rttNow := 1
  refreshNow := 1
  whohasTs := 1
  mmapOk := true
  openOk := true
  lseekOk := true
  written := btChunkSize
  mallocOk := fun _ => true

/- The hash whose bytes are all zero. -/
def zeroHash : CString :=
  binary2hex (fun _ => 0) sha1HashSize

def sampleAddress : Address where
  ip := 1
  port := 1

/- A packet with the zero hash. -/
def samplePacket (t : PacketType) : Packet where
  magic := magicNumber
  version := versionNumber
  type := t.code
  hdrLen := 16
  pktLen := if t = .get then 36 else 40
  seq := 0
  ack := 0
  payload := fun i => if t ≠ .get ∧ i = 0 then 1 else 0

/- The DATA packet with segment `k + 1`. -/
def sampleSegment (k : Nat) : Packet :=
  { samplePacket .data with
    seq := BitVec.ofNat 32 (k + 1)
    pktLen := 1040 }

/- A list with one chunk, that with the zero hash. -/
def oneChunk : ChunkList where
  count := 1
  chunks := fun _ => ⟨.unfetched, 0, zeroHash⟩
  count_le := by decide

/- A server with one peer, which has the chunk `oneChunk`. -/
def sampleServer : PeerServer :=
  peerInit [sampleAddress] (fun _ => 7) oneChunk 1
    (fun _ _ => none)

end BtPeer
