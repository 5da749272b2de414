import BtPeer.Broadcast
import BtPeer.Download

/-
  The state of the peer server (peer.h, peerlist.h,
  peer_server.h) and what the operating system answers.

  Log messages, progress output and the window size log are
  left out; of the output only the GOT lines are kept. The
  output files are part of the state, as are all datagrams
  sent so far.

  Key definitions include:
    * `Peer`
    * `PeerServer`
    * `Env`
-/

------------------------------------------------------------
-- Peers
------------------------------------------------------------

namespace BtPeer

/- `sin_addr.s_addr` and `sin_port`. -/
structure Address where
  ip : Word
  port : Half
deriving DecidableEq, Repr

/- `Peer`. `hasqueue` lists the hashes of its nodes. -/
structure Peer where
  addr : Address
  hasqueue : List CString
  isAlive : Bool
  isDownloading : Bool
  dl : Download
  isUploading : Bool
  ul : Upload

/- `init_peer` on a zero-initialized peer. -/
def initPeer (addr : Address) : Peer where
  addr := addr
  hasqueue := []
  isAlive := false
  isDownloading := false
  dl := Download.zero
  isUploading := false
  ul := Upload.zero

/- `die` -/
def die (pr : Peer) : Peer :=
  { pr with
    isAlive := false
    isDownloading := false
    isUploading := false }

structure PeerList where
  count : Nat
  peers : Nat → Peer

end BtPeer

------------------------------------------------------------
-- The Server
------------------------------------------------------------

namespace BtPeer

structure PeerServer where
  peerlist : PeerList
  masterChunk : Nat → Byte
  haschunks : ChunkList
  getchunks : ChunkList
  ihavechunks : ChunkList
  maxConn : Int
  dlNum : Int
  ulNum : Int
  dlRemain : Int
  dlFilename : CString
  getchunkFile : CString
  lastWhohas : Word
  sent : List Datagram
  got : List CString
  files : CString → ByteMemory.SparseFile Byte

namespace PeerServer

/- The peer at index `p`. -/
def peer
    (s : PeerServer)
    (p : Nat) : Peer :=
  s.peerlist.peers p

/- Replace the peer at index `p`. -/
def setPeer
    (s : PeerServer)
    (p : Nat)
    (pr : Peer) : PeerServer :=
  { s with
    peerlist :=
      { s.peerlist with
        peers := Function.update s.peerlist.peers p pr } }

@[simp] theorem setPeer_peer
    (s : PeerServer)
    (p q : Nat)
    (pr : Peer) :
    (s.setPeer p pr).peer q =
      if q = p then pr else s.peer q := by
  by_cases hEq : q = p
  · subst hEq
    simp [setPeer, peer]
  · simp [setPeer, peer, hEq]

end PeerServer

/-
  What the operating system answers during one event. `p` is
  a peer index: `dlInitTs p`, `dlTs p` and `dlNow p` are read
  by `dl_init`, at the end of `dl_recv` or `dl_loss`, and by
  `dl_check_timeout`; `ulNow p` by `ul_check_timeout`;
  `sendTs p seq` behind segment `seq` in `ul_send`.
-/
structure Env where
  stack : Nat → Byte
  dlInitTs : Nat → Word
  dlTs : Nat → Word
  dlNow : Nat → Word
  ulNow : Nat → Word
  sendTs : Nat → Word → Word
  rttNow : Word
  refreshNow : Word
  whohasTs : Word
  mmapOk : Bool
  openOk : Bool
  lseekOk : Bool
  written : Nat
  mallocOk : Nat → Bool

namespace PeerServer

/- `send_packet` -/
def send
    (s : PeerServer)
    (env : Env)
    (pp : PktParam) : PeerServer :=
  { s with
    sent :=
      s.sent ++
        sendPacket s.getchunks s.peerlist.count env.stack
          pp }

/- Several calls of `send_packet`. -/
def sendAll
    (s : PeerServer)
    (env : Env)
    (pps : List PktParam) : PeerServer :=
  { s with
    sent :=
      s.sent ++
        pps.flatMap
          (sendPacket s.getchunks s.peerlist.count
            env.stack) }

/- Set the state of the get-chunk at index `i`. -/
def setState
    (s : PeerServer)
    (i : Nat)
    (st : ChunkState) : PeerServer :=
  { s with getchunks := s.getchunks.setState i st }

end PeerServer

end BtPeer
