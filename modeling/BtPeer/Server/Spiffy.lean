import BtPeer.Server.Network
import BtPeer.Server.Peer

/-
  The network layer of the peers (spiffy.c). With a router,
  a datagram travels behind a header with the addresses of
  its sender and receiver; without one it is sent directly.

  `malloc` gives a buffer with any contents, here `newbuf`,
  none when it fails.

  Key definitions include:
    * `Spiffy`
    * `spiffySendto`
    * `spiffyRecvfrom`
    * `inboundUdp`

  Key theorems include:
    * `headerOf_storeHeader`
    * `spiffyRecvfrom_sent`
    * `inboundUdp_undefined_iff`
    * `spiffy_delivers`
-/

------------------------------------------------------------
-- Headers
------------------------------------------------------------

namespace BtPeer

/-
  `spiffy_header`. The addresses and ports are copied from and
  to a `sockaddr_in` as they are; `ID` is in network order.
-/
structure SpiffyHeader where
  id : Word
  srcAddr : Word
  destAddr : Word
  srcPort : Half
  destPort : Half
deriving DecidableEq, Repr

/- `sizeof(spiffy_header)` -/
def spiffyHeaderSize : Nat := 16

theorem spiffyHeaderSize_eq : spiffyHeaderSize = 16 := rfl

/- The bytes at address `a` as the machine loads them. -/
def loadHalf
    (m : Nat → Byte)
    (a : Nat) : Half :=
  m (a + 1) ++ m a

def loadLong
    (m : Nat → Byte)
    (a : Nat) : Word :=
  m (a + 3) ++ m (a + 2) ++ m (a + 1) ++ m a

/- The header at the start of a buffer. -/
def headerOf (m : Nat → Byte) : SpiffyHeader where
  id := readWord m 0
  srcAddr := loadLong m 4
  destAddr := loadLong m 8
  srcPort := loadHalf m 12
  destPort := loadHalf m 14

/- The bytes of a header. -/
def storeHeader (h : SpiffyHeader) : Nat → Byte
| 0 => h.id.extractLsb' 24 8
| 1 => h.id.extractLsb' 16 8
| 2 => h.id.extractLsb' 8 8
| 3 => h.id.extractLsb' 0 8
| 4 => h.srcAddr.extractLsb' 0 8
| 5 => h.srcAddr.extractLsb' 8 8
| 6 => h.srcAddr.extractLsb' 16 8
| 7 => h.srcAddr.extractLsb' 24 8
| 8 => h.destAddr.extractLsb' 0 8
| 9 => h.destAddr.extractLsb' 8 8
| 10 => h.destAddr.extractLsb' 16 8
| 11 => h.destAddr.extractLsb' 24 8
| 12 => h.srcPort.extractLsb' 0 8
| 13 => h.srcPort.extractLsb' 8 8
| 14 => h.destPort.extractLsb' 0 8
| 15 => h.destPort.extractLsb' 8 8
| _ => 0

theorem headerOf_storeHeader
    (h : SpiffyHeader) :
    headerOf (storeHeader h) = h := by
  have hId := word_of_bytes h.id
  have hSrc := word_of_bytes h.srcAddr
  have hDest := word_of_bytes h.destAddr
  have hSrcPort := half_of_bytes h.srcPort
  have hDestPort := half_of_bytes h.destPort
  cases h with
  | mk id srcAddr destAddr srcPort destPort =>
      simp only [headerOf, readWord, loadHalf, loadLong,
        SpiffyHeader.mk.injEq]
      exact ⟨hId, hSrc, hDest, hSrcPort, hDestPort⟩

/- Only the bytes of the header matter. -/
theorem headerOf_congr
    {m m' : Nat → Byte}
    (hBytes : ∀ i, i < spiffyHeaderSize → m i = m' i) :
    headerOf m = headerOf m' := by
  simp only [spiffyHeaderSize_eq] at hBytes
  simp only [headerOf, readWord, loadHalf, loadLong]
  simp (disch := omega) only [hBytes]

end BtPeer

------------------------------------------------------------
-- Sending And Receiving
------------------------------------------------------------

namespace BtPeer

/-
  The global variables of spiffy.c. `addr` is the address of
  this node, `router` the one of the router.
-/
structure Spiffy where
  enabled : Bool
  nodeId : Word
  addr : Address
  router : Address

/-
  A datagram at a socket. `addr` is where it goes, and at the
  receiver where it came from.
-/
structure UdpMessage where
  addr : Address
  data : Nat → Byte
  len : Nat

/- What `spiffy_recvfrom` leaves, and what it returns. -/
structure SpiffyReceived where
  buffer : Nat → Byte
  addr : Address
  retVal : Int

/- The header of a datagram for the address `dest`. -/
def Spiffy.header
    (g : Spiffy)
    (dest : Address) : SpiffyHeader where
  id := g.nodeId
  srcAddr := g.addr.ip
  destAddr := dest.ip
  srcPort := g.addr.port
  destPort := dest.port

/-
  `spiffy_sendto`: what is handed to `sendto`, none when there
  is no memory.
-/
def spiffySendto
    (g : Spiffy)
    (newbuf : Option (Nat → Byte))
    (msg : Nat → Byte)
    (len : Nat)
    (dest : Address) : Option UdpMessage :=
  if ! g.enabled then some ⟨dest, msg, len⟩
  else
    newbuf.map fun newbuf =>
      let body :=
        ByteMemory.memcpy newbuf spiffyHeaderSize msg len
      { addr := g.router
        data :=
          ByteMemory.memcpy body 0
            (storeHeader (g.header dest)) spiffyHeaderSize
        len := len + spiffyHeaderSize }

/-
  The datagram `m` without its header, read into `newbuf`
  first; what does not fit is lost. An empty datagram leaves
  the buffer and the address as they were.
-/
def stripHeader
    (newbuf buffer : Nat → Byte)
    (size : Nat)
    (addr : Address)
    (m : UdpMessage) : SpiffyReceived :=
  let ret := min m.len (size + spiffyHeaderSize)
  if ret = 0 then ⟨buffer, addr, 0⟩
  else
    let newbuf := ByteMemory.memcpy newbuf 0 m.data ret
    let head := headerOf newbuf
    { buffer :=
        ByteMemory.memcpy buffer 0
          (fun i => newbuf (spiffyHeaderSize + i)) size
      addr := ⟨head.srcAddr, head.srcPort⟩
      retVal := (ret : Int) - spiffyHeaderSize }

/-
  `spiffy_recvfrom` into the `size` bytes of `buffer`.
  `incoming` is what `recvfrom` finds, none when it fails.
-/
def spiffyRecvfrom
    (g : Spiffy)
    (newbuf : Option (Nat → Byte))
    (buffer : Nat → Byte)
    (size : Nat)
    (addr : Address)
    (incoming : Option UdpMessage) : SpiffyReceived :=
  if ! g.enabled then
    match incoming with
    | none => ⟨buffer, addr, -1⟩
    | some m =>
        ⟨ByteMemory.memcpy buffer 0 m.data (min m.len size),
          m.addr, (min m.len size : Nat)⟩
  else
    match newbuf with
    | none => ⟨buffer, addr, -1⟩
    | some newbuf =>
        match incoming with
        | none => ⟨buffer, addr, -1⟩
        | some m => stripHeader newbuf buffer size addr m

/- What is left is negative when the header is cut off. -/
theorem stripHeader_neg_iff
    (newbuf buffer : Nat → Byte)
    (size : Nat)
    (addr : Address)
    (m : UdpMessage) :
    (stripHeader newbuf buffer size addr m).retVal < 0 ↔
      0 < m.len ∧ m.len < spiffyHeaderSize := by
  have hFull : spiffyHeaderSize ≤ size + spiffyHeaderSize :=
    Nat.le_add_left _ _
  by_cases hEmpty : min m.len (size + spiffyHeaderSize) = 0
  · simp only [stripHeader, hEmpty, if_true, lt_irrefl,
      false_iff]
    rw [spiffyHeaderSize_eq] at hEmpty
    omega
  · simp only [stripHeader, hEmpty, if_false]
    omega

/- The datagram is for the node with the address `dest`. -/
def UdpMessage.BoundFor
    (g : Spiffy)
    (dest : Address)
    (out : UdpMessage) : Prop :=
  if g.enabled then
    out.addr = g.router ∧ headerOf out.data = g.header dest
  else out.addr = dest

/- Behind the header stands the message. -/
theorem spiffySendto_header
    {g : Spiffy}
    {newbuf : Option (Nat → Byte)}
    {msg : Nat → Byte}
    {len : Nat}
    {dest : Address}
    {out : UdpMessage}
    (hEnabled : g.enabled = true)
    (hSent : spiffySendto g newbuf msg len dest = some out) :
    out.addr = g.router ∧
      headerOf out.data = g.header dest ∧
      out.len = len + spiffyHeaderSize ∧
      ∀ i, i < len → out.data (spiffyHeaderSize + i) = msg i := by
  unfold spiffySendto at hSent
  rw [hEnabled] at hSent
  rcases Option.map_eq_some_iff.mp hSent with
    ⟨newbuf, _, rfl⟩
  refine ⟨rfl, ?_, rfl, ?_⟩
  · refine Eq.trans (headerOf_congr ?_)
      (headerOf_storeHeader (g.header dest))
    intro i hi
    exact ByteMemory.memcpy_front _ _ hi
  · intro i hi
    dsimp only
    rw [ByteMemory.memcpy_outside _ _ (Or.inr (by omega))]
    exact ByteMemory.memcpy_inside _ _ hi

/- A datagram with a header is taken apart. -/
theorem stripHeader_spec
    (newbuf buffer : Nat → Byte)
    {size : Nat}
    (addr : Address)
    {m : UdpMessage}
    {len : Nat}
    (hLen : m.len = len + spiffyHeaderSize)
    (hFits : len ≤ size) :
    let r := stripHeader newbuf buffer size addr m
    r.retVal = len ∧
      r.addr =
        ⟨(headerOf m.data).srcAddr,
          (headerOf m.data).srcPort⟩ ∧
      ∀ i, i < len →
        r.buffer i = m.data (spiffyHeaderSize + i) := by
  have hRet :
      min m.len (size + spiffyHeaderSize) =
        len + spiffyHeaderSize := by
    omega
  have hSome : ¬ len + spiffyHeaderSize = 0 := by
    rw [spiffyHeaderSize_eq]
    omega
  have hHead :
      headerOf
          (ByteMemory.memcpy newbuf 0 m.data
            (len + spiffyHeaderSize)) =
        headerOf m.data := by
    apply headerOf_congr
    intro i hi
    exact ByteMemory.memcpy_front _ _ (by omega)
  simp only [stripHeader, hRet, if_neg hSome, hHead]
  refine ⟨by omega, trivial, ?_⟩
  intro i hi
  rw [ByteMemory.memcpy_front _ _ (by omega)]
  exact ByteMemory.memcpy_front _ _ (by omega)

/-
  Whom a receiver takes for the sender when the socket of the
  node is at `src`.
-/
def Spiffy.seenFrom
    (g : Spiffy)
    (src : Address) : Address :=
  if g.enabled then g.addr else src

/-
  What one node sends, another one receives: the message, its
  length, and the address of the sender. The router hands the
  datagram on as it is, and `src` is where it came from then.
-/
theorem spiffyRecvfrom_sent
    {g g' : Spiffy}
    {newbuf : Option (Nat → Byte)}
    {msg : Nat → Byte}
    {len size : Nat}
    {dest src : Address}
    {out : UdpMessage}
    (hSent : spiffySendto g newbuf msg len dest = some out)
    (hSame : g'.enabled = g.enabled)
    (hFits : len ≤ size)
    (newbuf' buffer : Nat → Byte)
    (addr : Address) :
    let r :=
      spiffyRecvfrom g' (some newbuf') buffer size addr
        (some { out with addr := src })
    out.BoundFor g dest ∧ r.retVal = len ∧
      r.addr = g.seenFrom src ∧
      ∀ i, i < len → r.buffer i = msg i := by
  by_cases hEnabled : g.enabled = true
  · rcases spiffySendto_header hEnabled hSent with
      ⟨hRouter, hHeader, hLen, hBody⟩
    have hStripped :=
      @stripHeader_spec newbuf' buffer size addr
        { out with addr := src } len hLen hFits
    have hStrip :
        spiffyRecvfrom g' (some newbuf') buffer size addr
            (some { out with addr := src }) =
          stripHeader newbuf' buffer size addr
            { out with addr := src } := by
      unfold spiffyRecvfrom
      rw [hSame, hEnabled]
      rfl
    rw [hStrip, UdpMessage.BoundFor, if_pos hEnabled,
      Spiffy.seenFrom, if_pos hEnabled]
    refine ⟨⟨hRouter, hHeader⟩, hStripped.1, ?_, ?_⟩
    · rw [hStripped.2.1, hHeader]
      rfl
    · intro i hi
      rw [hStripped.2.2 i hi]
      exact hBody i hi
  · have hDisabled := Bool.eq_false_of_not_eq_true hEnabled
    unfold spiffySendto at hSent
    rw [hDisabled] at hSent
    have hOut : (⟨dest, msg, len⟩ : UdpMessage) = out :=
      Option.some.inj hSent
    unfold spiffyRecvfrom UdpMessage.BoundFor Spiffy.seenFrom
    rw [hSame, hDisabled, ← hOut]
    simp only [Bool.not_false, if_true, Nat.min_eq_left hFits,
      Bool.false_eq_true, if_false, true_and]
    intro i hi
    exact ByteMemory.memcpy_front _ _ hi

/-
  A negative result: there was no memory, nothing could be
  received, or what came is shorter than a header.
-/
theorem spiffyRecvfrom_neg_iff
    (g : Spiffy)
    (newbuf : Option (Nat → Byte))
    (buffer : Nat → Byte)
    (size : Nat)
    (addr : Address)
    (incoming : Option UdpMessage) :
    (spiffyRecvfrom g newbuf buffer size addr
        incoming).retVal < 0 ↔
      incoming = none ∨
        g.enabled = true ∧
          (newbuf = none ∨
            ∃ m, incoming = some m ∧ 0 < m.len ∧
              m.len < spiffyHeaderSize) := by
  cases hEnabled : g.enabled with
  | false =>
      cases incoming with
      | none => simp [spiffyRecvfrom, hEnabled]
      | some m => simp [spiffyRecvfrom, hEnabled]
  | true =>
      cases newbuf with
      | none => simp [spiffyRecvfrom, hEnabled]
      | some newbuf =>
          cases incoming with
          | none => simp [spiffyRecvfrom, hEnabled]
          | some m =>
              have hShort :=
                stripHeader_neg_iff newbuf buffer size addr m
              simpa [spiffyRecvfrom, hEnabled] using hShort

end BtPeer

------------------------------------------------------------
-- From Socket To Server
------------------------------------------------------------

namespace BtPeer

/- `BUFLEN` of peer.c. -/
def bufLen : Nat := 1500

/-
  `process_inbound_udp` with what the socket has to offer;
  `buf`, `stale` and `addr` are the previous contents of its
  variables. None where `DECODE_PKT` is given a negative
  length, which is undefined.
-/
def inboundUdp
    (sha1 : List Byte → Nat → Byte)
    (env : Env)
    (s : PeerServer)
    (g : Spiffy)
    (newbuf : Option (Nat → Byte))
    (buf stale : Nat → Byte)
    (addr : Address)
    (incoming : Option UdpMessage) : Option PeerServer :=
  let r := spiffyRecvfrom g newbuf buf bufLen addr incoming
  if r.retVal < 0 then none
  else
    some
      (processInboundUdp sha1 env s r.buffer stale
        r.retVal.toNat r.addr)

/- The bytes that are decoded are those that arrived. -/
theorem decodePkt_congr
    {buf buf' : Nat → Byte}
    {size : Nat}
    (hBytes : ∀ i, i < size → buf i = buf' i)
    (stale : Nat → Byte) :
    decodePkt buf stale size = decodePkt buf' stale size := by
  have hCopy :
      ByteMemory.memcpy stale 0 buf size =
        ByteMemory.memcpy stale 0 buf' size := by
    funext i
    by_cases hi : i < size
    · rw [ByteMemory.memcpy_front _ _ hi,
        ByteMemory.memcpy_front _ _ hi, hBytes i hi]
    · have hOut : i < 0 ∨ 0 + size ≤ i := by omega
      rw [ByteMemory.memcpy_outside _ _ hOut,
        ByteMemory.memcpy_outside _ _ hOut]
  rw [decodePkt, hCopy, decodePkt]

/-
  A datagram of a server, sent and received as bytes, is the
  event by which the network delivers it: the receiver takes
  it for a packet of the address of the sender.
-/
theorem spiffy_delivers
    {ι : Type*}
    (w : Swarm ι)
    (j i : ι)
    (d : Datagram)
    (g g' : Spiffy)
    (newbuf : Option (Nat → Byte))
    (out : UdpMessage)
    (src : Address)
    (env : Env)
    (s : PeerServer)
    (newbuf' buf stale : Nat → Byte)
    (addr : Address)
    (hTo : w.SentTo j i d)
    (hFits : d.pkt.pktLen.toNat ≤ bufLen)
    (hOwn : g.seenFrom src = w.address j)
    (hSent :
      spiffySendto g newbuf (encodePkt d.pkt)
          d.pkt.pktLen.toNat
          ((w.start j).peer d.dest).addr =
        some out)
    (hSame : g'.enabled = g.enabled) :
    out.BoundFor g (w.address i) ∧
      ∃ e,
        w.network.delivers j i d e ∧
          inboundUdp w.sha1 env s g' (some newbuf') buf stale
              addr (some { out with addr := src }) =
            some (s.step w.sha1 e) := by
  have hReceived :=
    @spiffyRecvfrom_sent g g' newbuf _ _ _ _ src out hSent
      hSame hFits newbuf' buf addr
  rcases hReceived with ⟨hBound, hRet, hAddr, hBytes⟩
  rw [hTo] at hBound
  refine ⟨hBound,
    .packet env (received d.pkt stale) (w.address j),
    ⟨hTo, env, stale, rfl⟩, ?_⟩
  simp only [inboundUdp, hRet, hAddr, hOwn,
    Int.not_ofNat_neg, if_false, Int.toNat_natCast,
    processInboundUdp_eq, received]
  rw [decodePkt_congr hBytes stale]

/- The first server of a pair asks the second one. -/
def pairSpiffy (i : Bool) : Spiffy where
  enabled := true
  nodeId := 1
  addr := pairSwarm.address i
  router := ⟨9, 9⟩

theorem spiffy_delivers_pair :
    let d : Datagram := ⟨0, samplePacket .whohas⟩
    ∃ out : UdpMessage,
      out.BoundFor (pairSpiffy true)
          (pairSwarm.address false) ∧
        ∃ e,
          pairSwarm.network.delivers true false d e ∧
            inboundUdp pairSwarm.sha1 sampleEnv
                (pairSwarm.start false) (pairSpiffy false)
                (some fun _ => 0) (fun _ => 0) (fun _ => 0)
                sampleAddress
                (some { out with addr := ⟨9, 9⟩ }) =
              some
                ((pairSwarm.start false).step
                  pairSwarm.sha1 e) :=
  ⟨_,
    spiffy_delivers pairSwarm true false
      ⟨0, samplePacket .whohas⟩ (pairSpiffy true)
      (pairSpiffy false) (some fun _ => 0) _ ⟨9, 9⟩ sampleEnv
      (pairSwarm.start false) (fun _ => 0) (fun _ => 0)
      (fun _ => 0) sampleAddress rfl (by decide) rfl rfl rfl⟩

end BtPeer
