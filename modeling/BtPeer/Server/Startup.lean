import BtPeer.Server.Config
import BtPeer.Server.Spiffy

/-
  From the files to the network. Peers that are started from
  one list of nodes make a swarm: each has all the others
  among its peers, at the addresses that their datagrams come
  from.

  Key definitions include:
    * `boundAddress`
    * `spiffyInit`
    * `Together`
    * `Together.swarm`

  Key theorems include:
    * `spiffyInit_seenFrom`
    * `started_peers_form_swarm`
-/

------------------------------------------------------------
-- The Socket And The Router
------------------------------------------------------------

namespace BtPeer

/- `htonl(INADDR_LOOPBACK)` -/
def loopback : Word := 0x0100007F

/- The address that `peer_run` binds its socket to. -/
def boundAddress (config : BtConfig) : Address where
  ip := loopback
  port := htons config.myport

/- The global variables of spiffy.c at first. -/
def spiffyOff : Spiffy where
  enabled := false
  nodeId := 0
  addr := ⟨0, 0⟩
  router := ⟨0, 0⟩

/-
  `spiffy_init`: the global variables behind it, and what it
  returns. `router` is what `SPIFFY_ROUTER` says, none when it
  is not set.
-/
def spiffyInit
    (inetAton : CString → Option Word)
    (router : Option CString)
    (nodeId : Word)
    (addr : Address)
    (g : Spiffy) : Spiffy × Int :=
  match router with
  | none => (g, 1)
  | some name =>
      if ':' ∉ name then (g, -1)
      else
        let digits := (name.dropWhile (· ≠ ':')).tail
        let port := htons (BitVec.ofInt 16 (atoi digits))
        match inetAton (name.takeWhile (· ≠ ':')) with
        | none =>
            ({ g with
                router := { g.router with port := port } },
              -1)
        | some ip =>
            ({ enabled := true
               nodeId := nodeId
               addr := addr
               router := ⟨ip, port⟩ },
              0)

/-
  With a router or without, the others see the address that
  the socket is bound to.
-/
theorem spiffyInit_seenFrom
    (inetAton : CString → Option Word)
    (router : Option CString)
    (nodeId : Word)
    (addr : Address) :
    (spiffyInit inetAton router nodeId addr
      spiffyOff).1.seenFrom addr = addr := by
  unfold spiffyInit
  split
  · rfl
  · split
    · rfl
    · dsimp only
      split <;> rfl

end BtPeer

------------------------------------------------------------
-- Peers Of One List
------------------------------------------------------------

namespace BtPeer

/-
  Every peer is started from a list of the same nodes. There
  is one node for each peer, on this machine, and no two of
  them have one address.
-/
structure Together
    {ι : Type*}
    (w : ι → World)
    (d : ι → Deployment)
    (own : ι → PeerInfo) : Prop where
  formed : ∀ i, (d i).WellFormed (w i)
  present : ∀ i, (d i).Present (w i)
  nodes : ∀ i j, (d i).nodes = (d j).nodes
  only :
    ∀ i p,
      p ∈ (d i).nodes ∧
          p.id = BitVec.ofNat 16 (d i).identity ↔
        p = own i
  here : ∀ i, (own i).addr.ip = loopback
  distinct : Function.Injective (fun i => (own i).addr)

/- The chunks that a peer has by its list. -/
def Deployment.haschunks (d : Deployment) : ChunkList :=
  (parseChunk ChunkList.zero (some (textOf d.has))).getD
    ChunkList.zero

/- The other nodes are those with another id. -/
theorem Deployment.mem_others
    {w : World}
    {d : Deployment}
    (hFormed : d.WellFormed w)
    {p : PeerInfo}
    (hMem : p ∈ d.nodes)
    (hId : p.id ≠ BitVec.ofNat 16 d.identity) :
    p.addr ∈ d.others := by
  have hInt : p.id.toInt ≠ (d.identity : Int) := by
    rw [← identity_toInt hFormed]
    exact fun hSame => hId (BitVec.toInt_inj.mp hSame)
  apply List.mem_map_of_mem
  rw [List.mem_filter, List.mem_reverse, decide_eq_true_eq]
  exact ⟨hMem, hInt⟩

namespace Together

variable {ι : Type*}
variable {w : ι → World}
variable {d : ι → Deployment}
variable {own : ι → PeerInfo}

/- The swarm of the peers. -/
def swarm
    (hAll : Together w d own)
    (sha1 : List Byte → Nat → Byte) : Swarm ι where
  sha1 := sha1
  address := fun i => (own i).addr
  distinct := hAll.distinct
  peers := fun i => (d i).others
  masterChunk := fun i => fileView (d i).master
  haschunks := fun i => (d i).haschunks
  maxConn := fun i => (d i).maxConn
  files := fun i => (w i).files

/- A started peer is a server of the swarm. -/
theorem peerMain_eq
    (hAll : Together w d own)
    (sha1 : List Byte → Nat → Byte)
    (i : ι) :
    ∃ config,
      peerMain (w i) (d i).opts =
          .ok (config, (hAll.swarm sha1).start i) ∧
        boundAddress config = (own i).addr := by
  rcases Deployment.peerMain_eq (hAll.formed i)
      (hAll.present i) with
    ⟨config, haschunks, ⟨p, hMem, hId, hPort⟩, hParse, hMain⟩
  have hChunks : (d i).haschunks = haschunks := by
    rw [Deployment.haschunks, hParse]
    rfl
  have hSelf : p = own i := (hAll.only i p).mp ⟨hMem, hId⟩
  refine ⟨config, ?_, ?_⟩
  · rw [hMain, ← hChunks]
    rfl
  · rw [hSelf] at hPort
    rw [boundAddress, hPort, ← hAll.here i]
    have hRead : htons (ntohs (own i).addr.port) =
        (own i).addr.port :=
      ntohs_htons _
    rw [hRead]

/- Every other peer is in the list of a peer. -/
theorem listed
    (hAll : Together w d own)
    {i j : ι}
    (hNe : i ≠ j) :
    (own j).addr ∈ (d i).others := by
  have hOther := (hAll.only j (own j)).mpr rfl
  have hMem : own j ∈ (d i).nodes := by
    rw [hAll.nodes i j]
    exact hOther.1
  refine Deployment.mem_others (hAll.formed i) hMem ?_
  intro hId
  have hSame := (hAll.only i (own j)).mp ⟨hMem, hId⟩
  exact hNe (hAll.distinct (congrArg PeerInfo.addr hSame.symm))

end Together

/-
  Peers that are started from one list of nodes make a swarm.
  Whether a router is used or not, the datagrams of each come
  from its address in the swarm, and each has every other one
  among its peers.
-/
theorem started_peers_form_swarm
    {ι : Type*}
    (w : ι → World)
    (d : ι → Deployment)
    (own : ι → PeerInfo)
    (hAll : Together w d own)
    (sha1 : List Byte → Nat → Byte) :
    let swarm := hAll.swarm sha1
    (∀ i, ∃ config,
      peerMain (w i) (d i).opts =
          .ok (config, swarm.start i) ∧
        ∀ inetAton router,
          (spiffyInit inetAton router
              (config.identity.signExtend 32)
              (boundAddress config) spiffyOff).1.seenFrom
              (boundAddress config) =
            swarm.address i) ∧
      ∀ i j, i ≠ j →
        ∃ p, p < (swarm.peers i).length ∧
          ((swarm.start i).peer p).addr =
            swarm.address j := by
  intro swarm
  constructor
  · intro i
    rcases hAll.peerMain_eq sha1 i with
      ⟨config, hMain, hBound⟩
    refine ⟨config, hMain, ?_⟩
    intro inetAton router
    rw [spiffyInit_seenFrom]
    exact hBound
  · intro i j hNe
    rcases List.getElem_of_mem (hAll.listed hNe) with
      ⟨p, hp, hAt⟩
    refine ⟨p, hp, ?_⟩
    change (d i).others.getD p ⟨0, 0⟩ = (own j).addr
    rw [List.getD_eq_getElem _ _ hp]
    exact hAt

/- The lines "1 a 1" and "2 a 2". -/
def mapLines : List CString :=
  [['1', ' ', 'a', ' ', '1'], ['2', ' ', 'a', ' ', '2']]

/- The sample's files with these lines, all on this machine. -/
def mapWorld : World :=
  { sampleWorld with
    gethostbyname := fun _ => some loopback
    fopen := fun name =>
      if name = ['p'] then some (bytesOf (linesText mapLines))
      else sampleWorld.fopen name }

/- The two nodes of the lines. -/
def mapNode (second : Bool) : PeerInfo :=
  if second then ⟨2, ⟨loopback, 512⟩⟩
  else ⟨1, ⟨loopback, 256⟩⟩

def mapDeployment (second : Bool) : Deployment :=
  { sampleDeployment with
    identity := if second then 2 else 1
    lines := mapLines
    entries :=
      [.node ⟨scanInt false ['1'], ['a'], 1⟩,
        .node ⟨scanInt false ['2'], ['a'], 2⟩]
    nodes := [mapNode false, mapNode true] }

theorem mapFormed
    (second : Bool) :
    (mapDeployment second).WellFormed mapWorld := by
  cases second <;>
    exact
      { mapName := by decide
        hasName := by decide
        chunkName := by decide
        hasNamed := by decide
        chunkNamed := by decide
        maxConn := by decide
        identity := by decide
        short := by decide
        lines :=
          .cons (@sampleLine '1' '1' rfl rfl)
            (.cons (@sampleLine '2' '2' rfl rfl) .nil)
        fits := by decide
        resolved := by decide
        own := by decide
        few := by decide
        newline := by decide
        terminator := by decide }

theorem mapPresent
    (second : Bool) :
    (mapDeployment second).Present mapWorld := by
  cases second <;>
    exact
      { map := by decide
        chunk := by decide
        master := by decide
        has := by decide
        output := rfl
        clock := by decide
        steps := by decide
        readable :=
          { newline := by decide
            length := by decide
            malloc := rfl
            realloc := fun _ _ _ => rfl } }

theorem mapTogether :
    Together (fun _ => mapWorld) mapDeployment mapNode where
  formed := mapFormed
  present := mapPresent
  nodes := fun _ _ => rfl
  only := by
    intro second p
    constructor
    · rintro ⟨hMem, hId⟩
      rcases List.mem_pair.mp hMem with rfl | rfl
      all_goals
        revert second
        decide
    · rintro rfl
      revert second
      decide
  here := by decide
  distinct := by decide

theorem started_peers_form_swarm_pair :
    let swarm := mapTogether.swarm (fun _ _ => 0)
    (∃ config,
      peerMain mapWorld (mapDeployment false).opts =
          .ok (config, swarm.start false) ∧
        (spiffyInit (fun _ => none) none
            (config.identity.signExtend 32)
            (boundAddress config) spiffyOff).1.seenFrom
            (boundAddress config) =
          ⟨loopback, 256⟩) ∧
      ∃ p, p < (swarm.peers false).length ∧
        ((swarm.start false).peer p).addr =
          ⟨loopback, 512⟩ := by
  intro swarm
  rcases started_peers_form_swarm (fun _ => mapWorld)
      mapDeployment mapNode mapTogether (fun _ _ => 0) with
    ⟨hStarts, hOthers⟩
  rcases hStarts false with ⟨config, hMain, hSeen⟩
  exact ⟨⟨config, hMain, hSeen (fun _ => none) none⟩,
    hOthers false true nofun⟩

end BtPeer
