import BtPeer.Library.Network
import BtPeer.Server.Causality

/-
  Many servers on one network. Datagrams between them may be
  lost, duplicated, delayed and reordered, and strangers may
  send anything from addresses that no server has.

  Key definitions include:
    * `Swarm`
    * `Swarm.network`
    * `Swarm.SentTo`

  Key theorems include:
    * `step_keepsLog`
    * `Swarm.relies`
    * `swarm_get_served`
    * `swarm_data_handshake`
    * `swarm_ack_sent`
-/

------------------------------------------------------------
-- The Log Of A Server
------------------------------------------------------------

namespace BtPeer

open PeerServer

/- What was sent stays sent. -/
def KeepsLog (s s' : PeerServer) : Prop :=
  s.sent <+: s'.sent

theorem PeerServer.Emits.keepsLog
    {s s' : PeerServer}
    (hEmits : s.Emits s') :
    KeepsLog s s' := by
  rcases hEmits with ⟨new, hSent, _⟩
  exact ⟨new, hSent.symm⟩

theorem sendWhohas_keepsLog
    (env : Env)
    (s : PeerServer) :
    KeepsLog s (sendWhohas env s) :=
  ⟨_, rfl⟩

theorem refreshChunkDownload_keepsLog
    (env : Env)
    (s : PeerServer) :
    KeepsLog s (refreshChunkDownload env s) := by
  have hLoop :=
    (refreshLoop_emits env s.peerlist.count 0 s).keepsLog
  unfold refreshChunkDownload askAgain
  split
  · exact List.IsPrefix.trans hLoop
      (sendWhohas_keepsLog env _)
  · exact hLoop

theorem handleData_keepsLog
    (sha1 : List Byte → Nat → Byte)
    (env : Env)
    (s : PeerServer)
    (pkt : Packet)
    (p : Nat) :
    KeepsLog s (handleData sha1 env s pkt p) := by
  have hUpdated := updateDownload_emits env s p pkt
  have hDone :=
    completeDownload_emits sha1 env
      (updateDownload env s p pkt) p
  simp only [handleData]
  split
  · exact List.prefix_refl _
  · split
    · have hBoth := (hUpdated.trans hDone).keepsLog
      split
      · exact List.IsPrefix.trans hBoth
          (refreshChunkDownload_keepsLog env _)
      · exact hBoth
    · exact hUpdated.keepsLog

theorem processGet_keepsLog
    (env : Env)
    (s : PeerServer)
    (chunkfile outputfile : CString)
    (text : Option (List Char)) :
    KeepsLog s
      (processGet env s chunkfile outputfile text) := by
  unfold processGet
  dsimp only
  split
  · exact List.prefix_refl _
  · split
    · exact List.prefix_refl _
    · split
      · exact List.prefix_refl _
      · exact ⟨_, rfl⟩

theorem step_keepsLog
    (sha1 : List Byte → Nat → Byte)
    (s : PeerServer)
    (e : ServerEvent) :
    KeepsLog s (s.step sha1 e) := by
  cases e with
  | packet env pkt sender =>
      simp only [PeerServer.step]
      split
      · unfold parsePacket
        split
        · exact List.prefix_refl _
        · rename_i p _
          split
          · exact (handleWhohas_emits env s pkt p).keepsLog
          · exact (handleIhave_emits env s pkt p).keepsLog
          · exact (handleGet_emits env s pkt p).keepsLog
          · exact handleData_keepsLog sha1 env s pkt p
          · exact (handleAck_emits env s pkt p).keepsLog
          · exact List.prefix_refl _
      · exact List.prefix_refl _
  | timeout env =>
      have hChecked :=
        (checkLoop_emits env s.peerlist.count 0 s).keepsLog
      simp only [PeerServer.step, checkAllTimeout]
      split
      · exact List.IsPrefix.trans hChecked
          (refreshChunkDownload_keepsLog env _)
      · exact hChecked
  | command env chunkfile outputfile text =>
      exact processGet_keepsLog env s chunkfile outputfile
        text

end BtPeer

------------------------------------------------------------
-- Swarms
------------------------------------------------------------

namespace BtPeer

open NodeNetwork

/-
  The configuration of the servers of a network, each with
  an address of its own.
-/
structure Swarm (ι : Type*) where
  sha1 : List Byte → Nat → Byte
  address : ι → Address
  distinct : Function.Injective address
  peers : ι → List Address
  masterChunk : ι → Nat → Byte
  haschunks : ι → ChunkList
  maxConn : ι → Int
  files : ι → CString → ByteMemory.SparseFile Byte

namespace Swarm

variable {ι : Type*}

/- Every server as it is initialized. -/
def start
    (w : Swarm ι)
    (i : ι) : PeerServer :=
  peerInit (w.peers i) (w.masterChunk i) (w.haschunks i)
    (w.maxConn i) (w.files i)

/- A datagram of server `j` is addressed to server `i`. -/
def SentTo
    (w : Swarm ι)
    (j i : ι)
    (d : Datagram) : Prop :=
  ((w.start j).peer d.dest).addr = w.address i

/-
  Servers that hand each other the bytes of their datagrams.
  Timeouts, commands and packets of strangers come at any
  time.
-/
def network
    (w : Swarm ι) :
    System ι PeerServer ServerEvent Datagram where
  step := fun _ => PeerServer.step w.sha1
  sent := PeerServer.sent
  delivers := fun j i d e =>
    w.SentTo j i d ∧
      ∃ env stale,
        e = .packet env (received d.pkt stale) (w.address j)
  free := fun _ e =>
    match e with
    | .packet _ _ sender => ∀ j, sender ≠ w.address j
    | _ => True

/-
  What server `i` may have heard when the servers have sent
  `sent`: their datagrams, and anything from a stranger.
-/
def heard
    (w : Swarm ι)
    (i : ι)
    (sent : ι → Datagram → Prop) : Heard :=
  fun p pkt =>
    ((w.start i).peer p).addr ∉ Set.range w.address ∨
      ∃ j d stale,
        ((w.start i).peer p).addr = w.address j ∧
          sent j d ∧ w.SentTo j i d ∧
          pkt = received d.pkt stale

theorem addr_of_addr2Index
    {s : PeerServer}
    {addr : Address}
    {p : Nat}
    (hFound : addr2Index s addr = some p) :
    (s.peer p).addr = addr := by
  unfold addr2Index at hFound
  have hTest := List.find?_some hFound
  exact of_decide_eq_true hTest

/- Every server justifies its log by the logs of the others. -/
theorem relies
    (w : Swarm ι) :
    w.network.Relies
      (fun i sent s =>
        s.Justified (w.heard i sent) (w.start i)) where
  mono := by
    intro i M M' s hMore hJust
    apply hJust.mono
    rintro p pkt (hStranger | ⟨j, d, stale, hAddr, hSent, hTo⟩)
    · exact Or.inl hStranger
    · exact Or.inr ⟨j, d, stale, hAddr, hMore j d hSent, hTo⟩
  step := by
    intro i M s e hJust hAllowed
    apply step_justified hJust w.sha1 e
    rintro p pkt ⟨env, sender, rfl, _, hIndex⟩
    have hAddr := addr_of_addr2Index hIndex
    rcases hAllowed with hFree | ⟨j, d, hSent, hTo, hPacket⟩
    · left
      rintro ⟨j, hj⟩
      exact hFree j (hAddr.symm.trans hj.symm)
    · right
      rcases hPacket with ⟨env', stale, hPacket⟩
      rw [ServerEvent.packet.injEq] at hPacket
      rcases hPacket with ⟨_, hPkt, hSender⟩
      exact ⟨j, d, stale, hAddr.trans hSender, hSent, hTo,
        hPkt⟩

theorem keepsLogs
    (w : Swarm ι) :
    w.network.KeepsLogs := by
  intro _ s e d hMem
  exact (step_keepsLog w.sha1 s e).subset hMem

end Swarm

end BtPeer

------------------------------------------------------------
-- What Stands In The Logs
------------------------------------------------------------

namespace BtPeer

open EventMachine NodeNetwork

namespace Swarm

variable {ι : Type*}

/-
  Server `j` has sent server `i` a packet of type `t` that
  meets `ok`.
-/
def Sends
    (w : Swarm ι)
    (s : ι → PeerServer)
    (j i : ι)
    (t : PacketType)
    (ok : Packet → Prop) : Prop :=
  ∃ d ∈ (s j).sent,
    w.SentTo j i d ∧ PacketType.ofCode d.pkt.type = some t ∧
      ok d.pkt

/- Every log is justified by the logs. -/
def Justified
    (w : Swarm ι)
    (s : ι → PeerServer) : Prop :=
  ∀ i,
    (s i).Justified (w.heard i (fun j d => d ∈ (s j).sent))
      (w.start i)

theorem run_justified
    [DecidableEq ι]
    (w : Swarm ι)
    {xs : List (ι × ServerEvent)}
    (hAllowed :
      Along w.network.next w.network.Allowed w.start xs) :
    w.Justified (run w.network.next w.start xs) :=
  System.run_relies w.relies w.keepsLogs
    (fun _ => peerInit_justified _ _ _ _ _ _) hAllowed

/- The header of a datagram arrives as it was sent. -/
theorem received_type
    {pkt : Packet}
    (hHeader : headerSize ≤ pkt.pktLen.toNat)
    (stale : Nat → Byte) :
    (received pkt stale).type = pkt.type ∧
      (received pkt stale).seq = pkt.seq := by
  have hAlike := decodePkt_encodePkt hHeader stale
  have hSame := hAlike.header
  rw [received, hSame]
  exact ⟨rfl, rfl⟩

section

variable {w : Swarm ι}
variable {s : ι → PeerServer}
variable {i j : ι}

/-
  What was heard from the peer with the address of server `j`
  is a datagram of server `j`.
-/
theorem Justified.of_heard
    (hAll : w.Justified s)
    {p : Nat}
    {t : PacketType}
    {ok : Packet → Prop}
    (hFrom :
      (w.heard i (fun j d => d ∈ (s j).sent)).From p t ok)
    (hAddr : ((w.start i).peer p).addr = w.address j) :
    ∃ d ∈ (s j).sent,
      w.SentTo j i d ∧
        PacketType.ofCode d.pkt.type = some t ∧
        ∃ stale, ok (received d.pkt stale) := by
  rcases hFrom with ⟨pkt, hHeard, hType, hOk⟩
  rcases hHeard with hStranger | ⟨k, d, stale, hFound, hRest⟩
  · exact absurd ⟨j, hAddr.symm⟩ hStranger
  · rcases hRest with ⟨hMem, hTo, rfl⟩
    have hSame : k = j := w.distinct (hFound.symm.trans hAddr)
    subst hSame
    have hHeader := ((hAll k).sent d hMem).header
    rw [(received_type hHeader stale).1] at hType
    exact ⟨d, hMem, hTo, hType, stale, hOk⟩

/- An offer answers a question, with hashes that are had. -/
theorem Justified.offer_asked
    (hAll : w.Justified s)
    {hash : CString}
    (hOffer :
      w.Sends s j i .ihave (fun pkt => hash ∈ pkt.hashes)) :
    (hash2Index (w.haschunks j) hash).isSome = true ∧
      w.Sends s i j .whohas (fun pkt => hash ∈ pkt.hashes) := by
  rcases hOffer with ⟨d, hMem, hTo, hType, hNamed⟩
  have hCaused := ((hAll j).sent d hMem).caused
  rw [Datagram.Caused, hType] at hCaused
  rcases hCaused with ⟨hashes, hCarries, _, hEach⟩
  rw [hCarries.hashes_eq (by simp)] at hNamed
  rcases List.mem_map.mp hNamed with ⟨offered, hMemOffered, rfl⟩
  rcases hEach offered hMemOffered with ⟨hHas, hFrom⟩
  have hSpelled : spelled offered = offered := by
    rcases hFrom with ⟨pkt, _, _, hAsked⟩
    exact (isHashString_of_mem hAsked).spelled_eq
  rw [hSpelled]
  refine ⟨hHas, ?_⟩
  rcases hAll.of_heard hFrom hTo with
    ⟨ask, hAsk, hAskTo, hAskType, stale, hAsked⟩
  refine ⟨ask, hAsk, hAskTo, hAskType, ?_⟩
  -- the question arrived as it was sent
  have hAskCaused := ((hAll i).sent ask hAsk).caused
  rw [Datagram.Caused, hAskType] at hAskCaused
  rcases hAskCaused with ⟨_, wanted, hWanted⟩
  rw [(hWanted.received stale).hashes_eq (by simp)] at hAsked
  change offered ∈ ask.pkt.hashes
  rw [hWanted.hashes_eq (by simp)]
  exact hAsked

/- A request answers an offer. -/
theorem Justified.request_offered
    (hAll : w.Justified s)
    {d : Datagram}
    (hMem : d ∈ (s i).sent)
    (hTo : w.SentTo i j d)
    (hType : PacketType.ofCode d.pkt.type = some .get) :
    (∀ stale,
      (received d.pkt stale).getHash 0 = d.pkt.getHash 0) ∧
      w.Sends s j i .ihave
        (fun pkt => d.pkt.getHash 0 ∈ pkt.hashes) := by
  have hCaused := ((hAll i).sent d hMem).caused
  rw [Datagram.Caused, hType] at hCaused
  rcases hCaused with ⟨hash, hCarries, hFrom⟩
  have hFirst : d.pkt.getHash 0 = spelled hash :=
    hCarries.getHash_eq (Nat.zero_lt_succ 0)
  have hSpelled : spelled hash = hash := by
    rcases hFrom with ⟨pkt, _, _, hNamed⟩
    exact (isHashString_of_mem hNamed).spelled_eq
  refine ⟨?_, ?_⟩
  · intro stale
    rw [hFirst]
    exact (hCarries.received stale).getHash_eq
      (Nat.zero_lt_succ 0)
  · rw [hFirst, hSpelled]
    rcases hAll.of_heard hFrom hTo with
      ⟨offer, hOffer, hOfferTo, hOfferType, stale, hNamed⟩
    refine ⟨offer, hOffer, hOfferTo, hOfferType, ?_⟩
    have hOfferCaused := ((hAll j).sent offer hOffer).caused
    rw [Datagram.Caused, hOfferType] at hOfferCaused
    rcases hOfferCaused with ⟨hashes, hHashes, _⟩
    rw [(hHashes.received stale).hashes_eq (by simp)] at hNamed
    change hash ∈ offer.pkt.hashes
    rw [hHashes.hashes_eq (by simp)]
    exact hNamed

end

end Swarm

end BtPeer

------------------------------------------------------------
-- Two Servers
------------------------------------------------------------

namespace BtPeer

open EventMachine NodeNetwork

/-
  A swarm of two: both have the chunk `oneChunk` and know
  each other only.
-/
def pairSwarm : Swarm Bool where
  sha1 := fun _ _ => 0
  address := fun i => ⟨1, if i then 1 else 2⟩
  distinct := by decide
  peers := fun i => [⟨1, if i then 2 else 1⟩]
  masterChunk := fun _ _ => 7
  haschunks := fun _ => oneChunk
  maxConn := fun _ => 1
  files := fun _ _ _ => none

/- The last datagram of server `j` arrives at the other. -/
def deliverLast
    (s : Bool → PeerServer)
    (j : Bool) : Bool × ServerEvent :=
  (! j,
    .packet sampleEnv
      (received
        ((s j).sent.getLastD
          ⟨0, samplePacket .whohas⟩).pkt
        (fun _ => 0))
      (pairSwarm.address j))

/- One delivery after another, each of the last datagram. -/
def arrivals :
    (Bool → PeerServer) → List Bool → List (Bool × ServerEvent)
| _, [] => []
| s, j :: js =>
    deliverLast s j ::
      arrivals (pairSwarm.network.next s (deliverLast s j))
        js

/- Each time there is one, for the only peer. -/
def deliverable : (Bool → PeerServer) → List Bool → Bool
| _, [] => true
| s, j :: js =>
    (s j).sent.getLast?.map Datagram.dest = some 0 &&
      deliverable (pairSwarm.network.next s (deliverLast s j))
        js

theorem arrivals_allowed
    (js : List Bool)
    {s : Bool → PeerServer}
    (hEach : deliverable s js = true) :
    Along pairSwarm.network.next pairSwarm.network.Allowed s
      (arrivals s js) := by
  induction js generalizing s with
  | nil => trivial
  | cons j js ih =>
      simp only [deliverable, Bool.and_eq_true,
        decide_eq_true_eq] at hEach
      refine ⟨Or.inr ?_, ih hEach.2⟩
      rcases Option.map_eq_some_iff.mp hEach.1 with
        ⟨d, hLast, hDest⟩
      refine ⟨j, d, List.mem_of_getLast? hLast, ?_,
        sampleEnv, fun _ => 0, ?_⟩
      · rw [Swarm.SentTo, hDest]
        cases j <;> rfl
      · rw [deliverLast, List.getLastD_eq_getLast?, hLast]
        rfl

/- The first server asks for the chunk and fetches it. -/
def pairCommand : Bool × ServerEvent :=
  (true,
    .command sampleEnv [] []
      (some ('0' :: ' ' :: zeroHash)))

def pairEvents : List (Bool × ServerEvent) :=
  pairCommand ::
    arrivals
      (pairSwarm.network.next pairSwarm.start pairCommand)
      [true, false, true, false]

theorem pairEvents_allowed :
    Along pairSwarm.network.next pairSwarm.network.Allowed
      pairSwarm.start pairEvents :=
  ⟨Or.inl trivial,
    arrivals_allowed _ (by decide +kernel)⟩

theorem pairEvents_sent :
    [true, false].map
        (fun i =>
          (run pairSwarm.network.next pairSwarm.start
            pairEvents i).sent.map
            (fun d =>
              (d.dest, PacketType.ofCode d.pkt.type))) =
      [[(0, some .whohas), (0, some .get), (0, some .ack)],
        [(0, some .ihave), (0, some .data)]] := by
  decide +kernel

/- What the servers have sent each other. -/
theorem exists_pairSent
    {i : Bool}
    {t : PacketType}
    (hType :
      (i, t) ∈
        [(true, PacketType.get), (true, .ack),
          (false, .data)]) :
    ∃ d ∈
        (run pairSwarm.network.next pairSwarm.start pairEvents
          i).sent,
      pairSwarm.SentTo i (! i) d ∧
        PacketType.ofCode d.pkt.type = some t := by
  have hSent := pairEvents_sent
  simp only [List.map_cons, List.map_nil, List.cons.injEq,
    and_true] at hSent
  have hMem :
      (0, some t) ∈
        (run pairSwarm.network.next pairSwarm.start pairEvents
          i).sent.map
          (fun d =>
            (d.dest, PacketType.ofCode d.pkt.type)) := by
    simp only [List.mem_cons, Prod.mk.injEq, List.not_mem_nil,
      or_false] at hType
    rcases hType with ⟨rfl, rfl⟩ | ⟨rfl, rfl⟩ | ⟨rfl, rfl⟩
    · rw [hSent.1]
      simp
    · rw [hSent.1]
      simp
    · rw [hSent.2]
      simp
  rcases List.mem_map.mp hMem with ⟨d, hD, hPair⟩
  rw [Prod.mk.injEq] at hPair
  refine ⟨d, hD, ?_, hPair.2⟩
  rw [Swarm.SentTo, hPair.1]
  cases i <;> rfl

end BtPeer

------------------------------------------------------------
-- Whatever The Network Does
------------------------------------------------------------

namespace BtPeer

open EventMachine NodeNetwork

/-
  Behind every DATA packet between two servers stands the
  whole handshake for its chunk, and it carries bytes of that
  chunk as the sender has it, or nothing.
-/
theorem swarm_data_handshake
    {ι : Type*}
    [DecidableEq ι]
    (w : Swarm ι)
    (xs : List (ι × ServerEvent))
    (hAllowed :
      Along w.network.next w.network.Allowed w.start xs)
    (i j : ι)
    (d : Datagram)
    (hSent : d ∈ (run w.network.next w.start xs j).sent)
    (hTo : w.SentTo j i d)
    (hType : PacketType.ofCode d.pkt.type = some .data) :
    let s := run w.network.next w.start xs
    ∃ hash hasIndex,
      hash2Index (w.haschunks j) hash = some hasIndex ∧
        w.Sends s i j .whohas
          (fun pkt => hash ∈ pkt.hashes) ∧
        w.Sends s j i .ihave
          (fun pkt => hash ∈ pkt.hashes) ∧
        w.Sends s i j .get
          (fun pkt => pkt.getHash 0 = hash) ∧
        (d.pkt.getDataLen = 0 ∨
          (0 ≤ getChunkOffset (w.start j) hasIndex ∧
            CarriesSegment (chunkBytes (w.start j) hasIndex)
              d.pkt)) := by
  intro s
  have hAll : w.Justified s := w.run_justified hAllowed
  have hCaused := ((hAll j).sent d hSent).caused
  rw [Datagram.Caused, hType] at hCaused
  rcases hCaused with ⟨_, _, hasIndex, hFrom, hData⟩
  rcases hAll.of_heard hFrom hTo with
    ⟨get, hGet, hGetTo, hGetType, stale, hIndex⟩
  rcases hAll.request_offered hGet hGetTo hGetType with
    ⟨hRead, hOffer⟩
  rw [Requests, hRead stale] at hIndex
  exact ⟨get.pkt.getHash 0, hasIndex, hIndex,
    (hAll.offer_asked hOffer).2, hOffer,
    ⟨get, hGet, hGetTo, hGetType, rfl⟩, hData⟩

theorem swarm_data_handshake_pair :
    let w := pairSwarm
    let s := run w.network.next w.start pairEvents
    ∃ d ∈ (s false).sent,
      PacketType.ofCode d.pkt.type = some .data ∧
        ∃ hash hasIndex,
          hash2Index oneChunk hash = some hasIndex ∧
            w.Sends s true false .whohas
              (fun pkt => hash ∈ pkt.hashes) ∧
            w.Sends s false true .ihave
              (fun pkt => hash ∈ pkt.hashes) ∧
            w.Sends s true false .get
              (fun pkt => pkt.getHash 0 = hash) ∧
            (d.pkt.getDataLen = 0 ∨
              (0 ≤ getChunkOffset (w.start false) hasIndex ∧
                CarriesSegment
                  (chunkBytes (w.start false) hasIndex)
                  d.pkt)) := by
  intro w s
  rcases @exists_pairSent false .data (by decide) with
    ⟨d, hMem, hTo, hType⟩
  exact ⟨d, hMem, hType,
    swarm_data_handshake pairSwarm pairEvents
      pairEvents_allowed true false d hMem hTo hType⟩

/-
  A server is acknowledged only segments that it has sent,
  and never more than the last one of a chunk.
-/
theorem swarm_ack_sent
    {ι : Type*}
    [DecidableEq ι]
    (w : Swarm ι)
    (xs : List (ι × ServerEvent))
    (hAllowed :
      Along w.network.next w.network.Allowed w.start xs)
    (i j : ι)
    (d : Datagram)
    (hSent : d ∈ (run w.network.next w.start xs i).sent)
    (hTo : w.SentTo i j d)
    (hType : PacketType.ofCode d.pkt.type = some .ack) :
    let s := run w.network.next w.start xs
    d.pkt.ack.toNat ≤ lastSeq ∧
      ∀ n, 1 ≤ n → n ≤ d.pkt.ack.toNat →
        w.Sends s j i .data
          (fun pkt => pkt.seq.toNat = n) := by
  intro s
  have hAll : w.Justified s := w.run_justified hAllowed
  have hCaused := ((hAll i).sent d hSent).caused
  rw [Datagram.Caused, hType] at hCaused
  have hEach :
      ∀ n, 1 ≤ n → n ≤ d.pkt.ack.toNat →
        w.Sends s j i .data
          (fun pkt => pkt.seq.toNat = n) := by
    intro n hFirst hLe
    have hFrom := hCaused.2 n hFirst hLe
    rcases hAll.of_heard hFrom hTo with
      ⟨data, hData, hDataTo, hDataType, stale, hSeq⟩
    have hHeader := ((hAll j).sent data hData).header
    rw [(Swarm.received_type hHeader stale).2] at hSeq
    exact ⟨data, hData, hDataTo, hDataType, hSeq⟩
  refine ⟨?_, hEach⟩
  by_cases hNone : d.pkt.ack.toNat = 0
  · rw [hNone]
    exact Nat.zero_le _
  · -- the highest acknowledged segment was sent
    rcases hEach d.pkt.ack.toNat (Nat.pos_of_ne_zero hNone)
        (Nat.le_refl _) with
      ⟨data, hData, _, hDataType, hSeq⟩
    have hDataCaused := ((hAll j).sent data hData).caused
    rw [Datagram.Caused, hDataType] at hDataCaused
    rw [← hSeq]
    exact hDataCaused.2.1

theorem swarm_ack_sent_pair :
    let w := pairSwarm
    let s := run w.network.next w.start pairEvents
    ∃ d ∈ (s true).sent,
      PacketType.ofCode d.pkt.type = some .ack ∧
        d.pkt.ack.toNat ≤ lastSeq ∧
        ∀ n, 1 ≤ n → n ≤ d.pkt.ack.toNat →
          w.Sends s false true .data
            (fun pkt => pkt.seq.toNat = n) := by
  intro w s
  rcases @exists_pairSent true .ack (by decide) with
    ⟨d, hMem, hTo, hType⟩
  exact ⟨d, hMem, hType,
    swarm_ack_sent pairSwarm pairEvents pairEvents_allowed
      true false d hMem hTo hType⟩

end BtPeer
