import BtPeer.InputBuffer
import BtPeer.Server.Spiffy

/-
  The main loop of peer.c. A round takes at most one datagram
  and one block of user input, and then checks the timeouts.

  A run of the program is a run of the server: its events are
  the datagrams, the GET lines that the user typed, and one
  check for each round, in this order.

  Key definitions include:
    * `getCommand`
    * `Round`
    * `peerRun`
    * `roundsEvents`

  Key theorems include:
    * `handleLines_run`
    * `peerRun_run`
    * `peerRun_obeys`
-/

------------------------------------------------------------
-- Lines
------------------------------------------------------------

namespace BtPeer

open EventMachine

/-
  The two names of a line that is a GET command: what
  `sscanf` stores, unless the second word is missing.
-/
def getCommand : CString → Option (CString × CString)
| 'G' :: 'E' :: 'T' :: rest =>
    let chunkf := scanWord rest
    let outf := scanWord chunkf.2
    if outf.1 = [] then none else some (chunkf.1, outf.1)
| _ => none

/- What is around while a line is handled. -/
structure LineEnv where
  env : Env
  fopen : CString → Option (List Char)

/- The event of a line, if it is a command. -/
def LineEnv.event
    (env : LineEnv)
    (line : CString) : Option ServerEvent :=
  (getCommand line).map fun names =>
    .command env.env names.1 names.2 (env.fopen names.1)

/- The calls of `handle_line`, line `i` of the block first. -/
def handleLines
    (envs : Nat → LineEnv) :
    Nat → PeerServer → List CString → PeerServer
| _, s, [] => s
| i, s, line :: lines =>
    handleLines envs (i + 1)
      (handleUserInput (envs i).env (envs i).fopen s line)
      lines

/- The events of these calls. -/
def lineEvents
    (envs : Nat → LineEnv)
    (i : Nat)
    (lines : List CString) : List ServerEvent :=
  (lines.zipIdx i).filterMap
    (fun line => (envs line.2).event line.1)

theorem handleUserInput_eq
    (sha1 : List Byte → Nat → Byte)
    (env : LineEnv)
    (s : PeerServer)
    (line : CString) :
    handleUserInput env.env env.fopen s line =
      run (PeerServer.step sha1) s (env.event line).toList := by
  unfold handleUserInput LineEnv.event
  split
  · rename_i rest
    by_cases hNone : (scanWord (scanWord rest).2).1 = []
    · simp [getCommand, hNone]
    · simp [getCommand, hNone, PeerServer.step]
  · rename_i hOther
    have hNone : getCommand line = none := by
      unfold getCommand
      split
      · exact (hOther _ rfl).elim
      · rfl
    rw [hNone]
    rfl

theorem handleLines_run
    (sha1 : List Byte → Nat → Byte)
    (envs : Nat → LineEnv)
    (i : Nat)
    (s : PeerServer)
    (lines : List CString) :
    handleLines envs i s lines =
      run (PeerServer.step sha1) s
        (lineEvents envs i lines) := by
  induction lines generalizing i s with
  | nil => rfl
  | cons line lines ih =>
      rw [handleLines, handleUserInput_eq sha1, ih]
      unfold lineEvents
      rw [List.zipIdx_cons, List.filterMap_cons, ← run_append]
      cases (envs i).event line <;> rfl

/- The names of the commands are those of the lines. -/
def ServerEvent.names :
    ServerEvent → Option (CString × CString)
| .packet _ _ _ => none
| .timeout _ => none
| .command _ chunkfile outputfile _ =>
    some (chunkfile, outputfile)

theorem lineEvents_names
    (envs : Nat → LineEnv)
    (i : Nat)
    (lines : List CString) :
    (lineEvents envs i lines).filterMap ServerEvent.names =
      lines.filterMap getCommand := by
  induction lines generalizing i with
  | nil => rfl
  | cons line lines ih =>
      have hRest := ih (i + 1)
      unfold lineEvents LineEnv.event at hRest ⊢
      rw [List.zipIdx_cons, List.filterMap_cons]
      cases hLine : getCommand line with
      | none =>
          rw [List.filterMap_cons_none hLine]
          simpa [hLine] using hRest
      | some names =>
          rw [List.filterMap_cons_some hLine]
          simpa [hLine, ServerEvent.names] using hRest

end BtPeer

------------------------------------------------------------
-- Rounds
------------------------------------------------------------

namespace BtPeer

open EventMachine

/-
  What the socket offers: a datagram, and what the variables
  of `process_inbound_udp` and `malloc` hold.
-/
structure Inbound where
  env : Env
  newbuf : Option (Nat → Byte)
  buf : Nat → Byte
  stale : Nat → Byte
  addr : Address
  incoming : Option UdpMessage

/- `process_inbound_udp` on it. -/
def Inbound.process
    (sha1 : List Byte → Nat → Byte)
    (g : Spiffy)
    (s : PeerServer)
    (d : Inbound) : Option PeerServer :=
  inboundUdp sha1 d.env s g d.newbuf d.buf d.stale d.addr
    d.incoming

/- The packet that it decodes, and its sender. -/
def Inbound.packet
    (g : Spiffy)
    (d : Inbound) : Packet × Address :=
  let r :=
    spiffyRecvfrom g d.newbuf d.buf bufLen d.addr d.incoming
  (decodePkt r.buffer d.stale r.retVal.toNat, r.addr)

def Inbound.event
    (g : Spiffy)
    (d : Inbound) : ServerEvent :=
  .packet d.env (d.packet g).1 (d.packet g).2

theorem Inbound.process_eq
    {sha1 : List Byte → Nat → Byte}
    {g : Spiffy}
    {s s' : PeerServer}
    {d : Inbound}
    (hSome : d.process sha1 g s = some s') :
    s' = s.step sha1 (d.event g) := by
  simp only [Inbound.process, inboundUdp] at hSome
  split at hSome
  · cases hSome
  · exact (Option.some.inj hSome).symm

/-
  One round of the loop: what `select` finds ready, and what
  is around when it is handled.
-/
structure Round where
  inbound : Option Inbound
  input : Option (List Char)
  lines : Nat → LineEnv
  check : Env

/- What the loop works on. -/
structure PeerLoop where
  psvr : PeerServer
  userbuf : UserIobuf

/- The socket, when it is ready. -/
def Round.receive
    (sha1 : List Byte → Nat → Byte)
    (g : Spiffy)
    (r : Round)
    (s : PeerServer) : Option PeerServer :=
  match r.inbound with
  | none => some s
  | some d => d.process sha1 g s

/- The lines from the terminal, when it is ready. -/
def Round.readLines
    (r : Round)
    (u : UserIobuf) : Option (UserIobuf × List CString) :=
  match r.input with
  | none => some (u, [])
  | some block => processUserInput u block

/-
  One round of the loop in `peer_run`, none when the program
  ends: the input buffer is full, or a copy is undefined.
-/
def peerRound
    (sha1 : List Byte → Nat → Byte)
    (g : Spiffy)
    (st : PeerLoop)
    (r : Round) : Option PeerLoop :=
  (r.receive sha1 g st.psvr).bind fun s =>
    (r.readLines st.userbuf).map fun read =>
      { psvr :=
          checkAllTimeout r.check
            (handleLines r.lines 0 s read.2)
        userbuf := read.1 }

/- Rounds of the loop in `peer_run`. -/
def peerRun
    (sha1 : List Byte → Nat → Byte)
    (g : Spiffy) :
    PeerLoop → List Round → Option PeerLoop
| st, [] => some st
| st, r :: rs =>
    (peerRound sha1 g st r).bind
      (fun st' => peerRun sha1 g st' rs)

/- The buffer after a round, and the lines of the round. -/
def Round.read
    (r : Round)
    (u : UserIobuf) : UserIobuf × List CString :=
  (r.readLines u).getD (u, [])

/- The events of one round. -/
def Round.events
    (g : Spiffy)
    (u : UserIobuf)
    (r : Round) : List ServerEvent :=
  (r.inbound.map (Inbound.event g)).toList ++
    (lineEvents r.lines 0 (r.read u).2 ++ [.timeout r.check])

def roundsEvents
    (g : Spiffy) : UserIobuf → List Round → List ServerEvent
| _, [] => []
| u, r :: rs => r.events g u ++ roundsEvents g (r.read u).1 rs

/- A round is a run of the server on its events. -/
theorem peerRound_run
    {sha1 : List Byte → Nat → Byte}
    {g : Spiffy}
    {st st' : PeerLoop}
    {r : Round}
    (hRound : peerRound sha1 g st r = some st') :
    st'.psvr =
        run (PeerServer.step sha1) st.psvr
          (r.events g st.userbuf) ∧
      st'.userbuf = (r.read st.userbuf).1 := by
  rcases Option.bind_eq_some_iff.mp hRound with
    ⟨s, hReceive, hRest⟩
  rcases Option.map_eq_some_iff.mp hRest with
    ⟨⟨userbuf, lines⟩, hLines, rfl⟩
  have hRead : r.read st.userbuf = (userbuf, lines) := by
    rw [Round.read, hLines, Option.getD_some]
  have hPacket :
      s =
        run (PeerServer.step sha1) st.psvr
          (r.inbound.map (Inbound.event g)).toList := by
    unfold Round.receive at hReceive
    cases hSocket : r.inbound with
    | none =>
        rw [hSocket] at hReceive
        exact (Option.some.inj hReceive).symm
    | some d =>
        rw [hSocket] at hReceive
        exact d.process_eq hReceive
  rw [hRead]
  refine ⟨?_, rfl⟩
  rw [Round.events, hRead, run_append, ← hPacket, run_append,
    ← handleLines_run]
  rfl

/-
  The program runs the server on the events of its rounds,
  until it ends.
-/
theorem peerRun_run
    {sha1 : List Byte → Nat → Byte}
    {g : Spiffy}
    {st st' : PeerLoop}
    {rounds : List Round}
    (hRun : peerRun sha1 g st rounds = some st') :
    st'.psvr =
      run (PeerServer.step sha1) st.psvr
        (roundsEvents g st.userbuf rounds) := by
  induction rounds generalizing st with
  | nil =>
      rw [← Option.some.inj hRun]
      rfl
  | cons r rs ih =>
      rcases Option.bind_eq_some_iff.mp hRun with
        ⟨mid, hRound, hRest⟩
      rcases peerRound_run hRound with ⟨hServer, hBuffer⟩
      rw [ih hRest, roundsEvents, run_append, ← hServer,
        ← hBuffer]

end BtPeer

------------------------------------------------------------
-- What The Events Are
------------------------------------------------------------

namespace BtPeer

open EventMachine LineSplitting

/- The packet of an event, and its sender. -/
def ServerEvent.arrival :
    ServerEvent → Option (Packet × Address)
| .packet _ pkt sender => some (pkt, sender)
| _ => none

def ServerEvent.isCheck : ServerEvent → Bool
| .timeout _ => true
| _ => false

theorem lineEvents_others
    (envs : Nat → LineEnv)
    (i : Nat)
    (lines : List CString) :
    (lineEvents envs i lines).filterMap
          ServerEvent.arrival = [] ∧
      (lineEvents envs i lines).countP
          ServerEvent.isCheck = 0 := by
  have hCommand (e : ServerEvent)
      (hMem : e ∈ lineEvents envs i lines) :
      e.arrival = none ∧ e.isCheck = false := by
    rcases List.mem_filterMap.mp hMem with
      ⟨line, _, hEvent⟩
    rcases Option.map_eq_some_iff.mp hEvent with
      ⟨names, _, rfl⟩
    exact ⟨rfl, rfl⟩
  constructor
  · apply List.filterMap_eq_nil_iff.mpr
    intro e hMem
    exact (hCommand e hMem).1
  · apply List.countP_eq_zero.mpr
    intro e hMem
    rw [(hCommand e hMem).2]
    exact Bool.false_ne_true

/- The lines that the rounds hand out. -/
def roundsLines :
    UserIobuf → List Round → List CString
| _, [] => []
| u, r :: rs => (r.read u).2 ++ roundsLines (r.read u).1 rs

/- One datagram at most, the commands, and one check. -/
theorem Round.events_spec
    (g : Spiffy)
    (u : UserIobuf)
    (r : Round) :
    (r.events g u).filterMap ServerEvent.arrival =
        (r.inbound.map (Inbound.packet g)).toList ∧
      (r.events g u).filterMap ServerEvent.names =
        (r.read u).2.filterMap getCommand ∧
      (r.events g u).countP ServerEvent.isCheck = 1 := by
  rcases lineEvents_others r.lines 0 (r.read u).2 with
    ⟨hArrival, hCheck⟩
  have hNames := lineEvents_names r.lines 0 (r.read u).2
  unfold Round.events
  cases r.inbound with
  | none =>
      simp [hArrival, hNames, hCheck, ServerEvent.arrival,
        ServerEvent.names, ServerEvent.isCheck]
  | some d =>
      simp [hArrival, hNames, hCheck, ServerEvent.arrival,
        ServerEvent.names, ServerEvent.isCheck, Inbound.event,
        List.filterMap_cons]

/- The events of all rounds, in the same terms. -/
theorem roundsEvents_spec
    (g : Spiffy)
    (u : UserIobuf)
    (rounds : List Round) :
    (roundsEvents g u rounds).filterMap
          ServerEvent.arrival =
        rounds.filterMap
          (fun r => r.inbound.map (Inbound.packet g)) ∧
      (roundsEvents g u rounds).filterMap
          ServerEvent.names =
        (roundsLines u rounds).filterMap getCommand ∧
      (roundsEvents g u rounds).countP
          ServerEvent.isCheck =
        rounds.length := by
  induction rounds generalizing u with
  | nil => exact ⟨rfl, rfl, rfl⟩
  | cons r rs ih =>
      rcases r.events_spec g u with ⟨hArrival, hNames, hCheck⟩
      rcases ih (r.read u).1 with
        ⟨hArrivals, hAllNames, hChecks⟩
      refine ⟨?_, ?_, ?_⟩
      · rw [roundsEvents, List.filterMap_append, hArrival,
          hArrivals]
        cases hInbound : r.inbound <;> simp [hInbound]
      · rw [roundsEvents, List.filterMap_append, hNames,
          hAllNames, roundsLines, List.filterMap_append]
      · rw [roundsEvents, List.countP_append, hCheck, hChecks,
          List.length_cons, Nat.add_comm]

/- The calls that read from the terminal are those of input. -/
theorem roundsLines_input
    (rounds : List Round)
    (ir : InputRun) :
    (run InputRun.step ir (rounds.filterMap Round.input)).lines =
      ir.lines ++ roundsLines ir.iobuf rounds := by
  induction rounds generalizing ir with
  | nil => exact (List.append_nil _).symm
  | cons r rs ih =>
      cases hInput : r.input with
      | none =>
          have hRead (u : UserIobuf) : r.read u = (u, []) := by
            simp [Round.read, Round.readLines, hInput]
          rw [List.filterMap_cons_none hInput, ih, roundsLines,
            hRead]
          rfl
      | some block =>
          rw [List.filterMap_cons_some hInput, run_cons, ih,
            roundsLines, ← List.append_assoc]
          have hStep :
              (ir.step block).lines =
                  ir.lines ++ (r.read ir.iobuf).2 ∧
                (ir.step block).iobuf =
                  (r.read ir.iobuf).1 := by
            simp only [InputRun.step, Round.read,
              Round.readLines, hInput]
            cases processUserInput ir.iobuf block <;> simp
          rw [hStep.1, hStep.2]

/- All blocks that fit are part of the input. -/
theorem input_flatten
    {ir : InputRun}
    {blocks : List (List Char)}
    (hFits :
      Along InputRun.step (fun r block => r.iobuf.Fits block)
        ir blocks) :
    (run InputRun.step ir blocks).input =
      ir.input ++ blocks.flatten := by
  induction blocks generalizing ir with
  | nil => exact (List.append_nil _).symm
  | cons block blocks ih =>
      rw [run_cons, ih hFits.2,
        (InputRun.step_spec hFits.1).1, List.flatten_cons,
        List.append_assoc]

/-
  The blocks of the input are what a run of the buffer needs:
  each is what was asked for, and leaves nothing stale.
-/
def CleanInput (rounds : List Round) : Prop :=
  Along InputRun.step
    (fun r block => r.iobuf.Fits block ∧ r.Clean block)
    InputRun.start (rounds.filterMap Round.input)

/- Clean input is split into its lines. -/
theorem CleanInput.lines
    {rounds : List Round}
    (hClean : CleanInput rounds) :
    roundsLines createUserbuf rounds =
      terminated newline
        (rounds.filterMap Round.input).flatten := by
  have hSplit :
      (run InputRun.step InputRun.start
        (rounds.filterMap Round.input)).Split :=
    run_invariant_along InputRun.Split
      (fun _ _ hSplit hOk =>
        (InputRun.step_split_iff hSplit hOk.1).mpr hOk.2)
      InputRun.start_split hClean
  have hInput :=
    input_flatten (hClean.mono (fun _ _ hOk => hOk.1))
  have hLines :=
    roundsLines_input rounds InputRun.start
  rw [hSplit.lines, hInput] at hLines
  exact hLines.symm

/-
  A datagram that is too short to be a packet, a GET line, and
  a round in which nothing happens.
-/
def sampleRounds : List Round :=
  let lines : Nat → LineEnv :=
    fun _ => ⟨sampleEnv, fun _ => none⟩
  let short : Inbound :=
    { env := sampleEnv
      newbuf := none
      buf := fun _ => 0
      stale := fun _ => 0
      addr := sampleAddress
      incoming := some ⟨sampleAddress, fun _ => 0, 4⟩ }
  [⟨some short, none, lines, sampleEnv⟩,
    ⟨none, some ['G', 'E', 'T', ' ', 'c', ' ', 'o', newline],
      lines, sampleEnv⟩,
    ⟨none, none, lines, sampleEnv⟩]

/- A node without a router. -/
def sampleSpiffy : Spiffy where
  enabled := false
  nodeId := 1
  addr := sampleAddress
  router := sampleAddress

end BtPeer
