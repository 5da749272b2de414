import BtPeer.InputBuffer
import BtPeer.Server.Causality
import BtPeer.Server.MakeChunks
import BtPeer.Server.ReadString

/-
  How a peer starts: its options and the list of all nodes
  (bt_parse.c), the peers among them (peerlist.c), and the
  files that `peer_init` opens.

  A line of blanks in the list stands for the node before it
  once more. The peers come in the reverse order of the file,
  without the peer itself.

  Key definitions include:
    * `btParsePeerList`
    * `btParseCommandLine`
    * `initPeerlist`
    * `peerMain`
    * `MapLine`

  Key theorems include:
    * `nodeLoop_lines`
    * `peerMain_spec`
    * `nodesMap_parsed`
    * `peerMain_starts`
    * `started_sends_to_others`
-/

------------------------------------------------------------
-- The Configuration
------------------------------------------------------------

namespace BtPeer

/- `BT_MAX_PEERS` -/
def btMaxPeers : Nat := 1024

/- `bt_peer_t`; the linked list is a list. -/
structure PeerInfo where
  id : Half
  addr : Address
deriving DecidableEq, Repr

/- `bt_config_t` -/
structure BtConfig where
  chunkFile : CString
  hasChunkFile : CString
  outputFile : CString
  peerListFile : CString
  maxConn : Int
  identity : Half
  myport : Half
  noOutput : Bool
  peers : List PeerInfo

/-
  Why a peer does not start: the program ended, by `exit` or
  a failed assertion, or it used memory that is not its own.
-/
inductive Stop where
  | ended
  | undefined
deriving DecidableEq, Repr

/- `htons`: the two bytes change places. -/
def htons (x : Half) : Half :=
  BitVec.ofNat 16 (x.toNat % 256 * 256 + x.toNat / 256)

/- `ntohs` -/
def ntohs (x : Half) : Half :=
  htons x

theorem htons_toNat (x : Half) :
    (htons x).toNat = x.toNat % 256 * 256 + x.toNat / 256 := by
  have hLt := x.isLt
  rw [htons, BitVec.toNat_ofNat]
  exact Nat.mod_eq_of_lt (by omega)

theorem ntohs_htons (x : Half) : ntohs (htons x) = x := by
  have hLt := x.isLt
  apply BitVec.eq_of_toNat_eq
  rw [ntohs, htons_toNat, htons_toNat]
  omega

/- `bt_init` -/
def btInit : BtConfig where
  chunkFile := []
  hasChunkFile := []
  outputFile := "problem2-peer.txt".toList
  peerListFile := "nodes.map".toList
  maxConn := 0
  identity := 0
  myport := 0
  noOutput := false
  peers := []

/- What `main` sets when it is compiled with TESTING. -/
def testingConfig (config : BtConfig) : BtConfig :=
  { config with
    identity := 1
    chunkFile := "chunkfile".toList
    hasChunkFile := "haschunks".toList }

end BtPeer

------------------------------------------------------------
-- The List Of All Nodes
------------------------------------------------------------

namespace BtPeer

/-
  `fgets` with a buffer of `size` characters: the string that
  it stores and what is left of the file, none at its end.
-/
def fgets
    (size : Nat)
    (file : List Char) : Option (CString × List Char) :=
  if file = [] then none
  else
    let room := file.take (size - 1)
    let raw :=
      room.take ((room.takeWhile (· ≠ newline)).length + 1)
    some (raw.takeWhile (· ≠ nul), file.drop raw.length)

/-
  `%d` on a string: the value and what is left, none when no
  number stands behind the blanks.
-/
def scanD (text : CString) : Option (Int × CString) :=
  match text.dropWhile isSpace with
  | [] => none
  | c :: rest =>
      let body := if c = '-' ∨ c = '+' then rest else c :: rest
      let digits := body.takeWhile Char.isDigit
      if digits = [] then none
      else
        some
          (scanInt (c = '-') digits,
            body.dropWhile Char.isDigit)

/- The variables of `bt_parse_peer_list` that `sscanf` sets. -/
structure NodeVars where
  nodeid : Int
  hostname : CString
  port : Int
deriving DecidableEq, Repr

/-
  `sscanf(line, "%d %s %d", &nodeid, hostname, &port)`: what
  it returns and the variables after it. What is not
  converted keeps its value.
-/
def sscanfNode
    (vars : NodeVars)
    (line : CString) : Int × NodeVars :=
  if line.dropWhile isSpace = [] then (-1, vars)
  else
    match scanD line with
    | none => (0, vars)
    | some (nodeid, rest) =>
        let vars := { vars with nodeid := nodeid }
        match rest.dropWhile isSpace with
        | [] => (1, vars)
        | word =>
            let vars :=
              { vars with
                hostname := word.takeWhile (! isSpace ·) }
            match scanD (word.dropWhile (! isSpace ·)) with
            | none => (2, vars)
            | some (port, _) => (3, { vars with port := port })

/- The node that is made of the variables. -/
def NodeVars.node
    (gethostbyname : CString → Option Word)
    (vars : NodeVars) : Option PeerInfo :=
  (gethostbyname vars.hostname).map fun ip =>
    { id := BitVec.ofInt 16 vars.nodeid
      addr := ⟨ip, htons (BitVec.ofInt 16 vars.port)⟩ }

/-
  One turn of the loop of `bt_parse_peer_list`, none when an
  assertion fails.
-/
def nodeLine
    (gethostbyname : CString → Option Word)
    (vars : NodeVars)
    (peers : List PeerInfo)
    (line : CString) : Option (NodeVars × List PeerInfo) :=
  if charAt line 0 = '#' then some (vars, peers)
  else
    let scanned := sscanfNode vars line
    if scanned.1 = 0 then none
    else
      (scanned.2.node gethostbyname).map fun node =>
        (scanned.2, node :: peers)

/- The loop; every turn reads at least one character. -/
def nodeLoop
    (gethostbyname : CString → Option Word) :
    Nat → NodeVars → List PeerInfo → List Char →
      Option (List PeerInfo)
| 0, _, peers, _ => some peers
| k + 1, vars, peers, file =>
    match fgets btFilenameLen file with
    | none => some peers
    | some (line, rest) =>
        match nodeLine gethostbyname vars peers line with
        | none => none
        | some (vars, peers) =>
            nodeLoop gethostbyname k vars peers rest

/-
  `bt_parse_peer_list` on the file, none when it cannot be
  opened. `vars` is what the variables hold at first.
-/
def btParsePeerList
    (gethostbyname : CString → Option Word)
    (vars : NodeVars)
    (file : Option (List Char))
    (config : BtConfig) : Except Stop BtConfig :=
  match file with
  | none => .error .ended
  | some text =>
      match
        nodeLoop gethostbyname text.length vars config.peers
          text
      with
      | none => .error .ended
      | some peers => .ok { config with peers := peers }

/- `bt_peer_info`, none for NULL. -/
def btPeerInfo
    (config : BtConfig)
    (peerId : Int) : Option PeerInfo :=
  config.peers.find? (fun p => p.id.toInt = peerId)

end BtPeer

------------------------------------------------------------
-- The Command Line
------------------------------------------------------------

namespace BtPeer

/- `atoi`: 0 when there is no number. -/
def atoi (text : CString) : Int :=
  match scanD text with
  | none => 0
  | some (value, _) => value

/- What `set_debug` returns. -/
def setDebug (arg : CString) : Int :=
  if arg = [] then -1
  else if charAt arg 0 = '?' ∨ arg = "list".toList then -1
  else 0

/- `strcpy` of an argument into the array of a file name. -/
def fileName (arg : CString) : Except Stop CString :=
  if arg.length < btFilenameLen then .ok arg
  else .error .undefined

/-
  One turn of the loop over the options: the character that
  `getopt` returned, and `optarg`.
-/
def parseOption
    (config : BtConfig) :
    Char × CString → Except Stop BtConfig
| ('h', _) => .error .ended
| ('d', arg) =>
    if setDebug arg = -1 then .error .ended else .ok config
| ('p', arg) => do
    let name ← fileName arg
    return { config with peerListFile := name }
| ('c', arg) => do
    let name ← fileName arg
    return { config with hasChunkFile := name }
| ('f', arg) => do
    let name ← fileName arg
    return { config with chunkFile := name }
| ('m', arg) => .ok { config with maxConn := atoi arg }
| ('i', arg) =>
    .ok { config with identity := BitVec.ofInt 16 (atoi arg) }
| ('n', _) => .ok { config with noOutput := true }
| _ => .error .ended

/- The tests behind the loop, and the port of the peer. -/
def checkConfig (config : BtConfig) : Except Stop BtConfig :=
  if config.identity = 0 then .error .ended
  else
    match btPeerInfo config config.identity.toInt with
    | none => .error .ended
    | some p =>
        if config.chunkFile = [] ∨ config.hasChunkFile = []
        then .error .ended
        else .ok { config with myport := ntohs p.addr.port }

end BtPeer

------------------------------------------------------------
-- The Peers
------------------------------------------------------------

namespace BtPeer

/- The loop of `init_peerlist` with `i` peers in the array. -/
def initPeerlistLoop
    (selfid : Int) :
    List PeerInfo → Nat → (Nat → Peer) → PeerList
| [], i, peers => ⟨i, peers⟩
| p :: ps, i, peers =>
    if p.id.toInt = selfid then
      initPeerlistLoop selfid ps i peers
    else
      initPeerlistLoop selfid ps (i + 1)
        (Function.update peers i (initPeer p.addr))

/- `init_peerlist` on the array, which is zero at first. -/
def initPeerlist
    (peers : List PeerInfo)
    (selfid : Int) : PeerList :=
  initPeerlistLoop selfid peers 0
    (fun _ => initPeer ⟨0, 0⟩)

/- The addresses of the other nodes. -/
def otherAddrs
    (peers : List PeerInfo)
    (selfid : Int) : List Address :=
  (peers.filter (fun p => p.id.toInt ≠ selfid)).map
    PeerInfo.addr

end BtPeer

------------------------------------------------------------
-- Starting
------------------------------------------------------------

namespace BtPeer

/- The characters of a text file. -/
def textOf (file : List Byte) : List Char :=
  file.map (fun b => Char.ofNat b.toNat)

/- The string in a block, up to its terminator. -/
def stringOf
    (str : Nat → Byte)
    (size : Nat) : CString :=
  (textOf (ByteMemory.block str 0 size)).takeWhile (· ≠ nul)

/-
  What the system offers to a starting peer. `vars` is what
  the variables of `bt_parse_peer_list` hold at first, and
  `steps` how long `readString` may run.
-/
structure World where
  gethostbyname : CString → Option Word
  fopen : CString → Option (List Byte)
  fopenOutput : CString → Bool
  startTs : Word
  alloc : Allocator
  steps : Nat
  vars : NodeVars
  files : CString → ByteMemory.SparseFile Byte

/- `bt_parse_command_line`, with what `getopt` returns. -/
def btParseCommandLine
    (w : World)
    (config : BtConfig)
    (opts : List (Char × CString)) :
    Except Stop BtConfig := do
  let config ← opts.foldlM parseOption config
  let config ←
    btParsePeerList w.gethostbyname w.vars
      ((w.fopen config.peerListFile).map textOf) config
  checkConfig config

/-
  `fscanf(fp, "File:%*c")`: what is left of the file. A
  character that does not match stays.
-/
def skipTag : List Byte → List Byte → List Byte
| [], file => file.tail
| _ :: _, [] => []
| c :: cs, b :: file =>
    if b = c then skipTag cs file else b :: file

/- "File:" -/
def fileTag : List Byte :=
  [0x46, 0x69, 0x6C, 0x65, 0x3A]

/- The name of the file with the chunks that a peer has. -/
def masterName
    (w : World)
    (config : BtConfig) : Except Stop CString :=
  match w.fopen config.chunkFile with
  | none => .error .ended
  | some text =>
      match
        readString w.alloc (skipTag fileTag text) w.steps
      with
      | .returned str => .ok (stringOf str w.steps)
      | .null => .error .ended
      | _ => .error .undefined

/- `peer_init` -/
def peerInitFiles
    (w : World)
    (config : BtConfig) : Except Stop PeerServer :=
  if w.startTs = 0 then .error .ended
  else if
    btMaxPeers <
      (initPeerlist config.peers config.identity.toInt).count
  then .error .undefined
  else do
    let name ← masterName w config
    match w.fopen name with
    | none => .error .ended
    | some master =>
        if config.noOutput = false ∧
            w.fopenOutput config.outputFile = false then
          .error .ended
        else
          match
            parseChunk ChunkList.zero
              ((w.fopen config.hasChunkFile).map textOf)
          with
          | none => .error .ended
          | some haschunks =>
              return {
                peerInit [] (fileView master) haschunks
                  config.maxConn w.files with
                peerlist :=
                  initPeerlist config.peers
                    config.identity.toInt }

/- `main` up to the loop: the configuration and the server. -/
def peerMain
    (w : World)
    (opts : List (Char × CString)) :
    Except Stop (BtConfig × PeerServer) := do
  let config ←
    btParseCommandLine w (testingConfig btInit) opts
  let s ← peerInitFiles w config
  return (config, s)

end BtPeer

------------------------------------------------------------
-- Lines Of The List
------------------------------------------------------------

namespace BtPeer

/- A line that names a node: a number, a name and a port. -/
inductive NamesNode : CString → NodeVars → Prop
| intro
    (blanks sign digits gap host blanks' sign' digits' rest :
      List Char)
    (hBlanks : ∀ c ∈ blanks, isSpace c = true)
    (hSign : sign = [] ∨ sign = ['-'] ∨ sign = ['+'])
    (hDigits : digits ≠ [])
    (hDigit : ∀ c ∈ digits, c.isDigit = true)
    (hGap : ∀ c ∈ gap, isSpace c = true)
    (hApart : gap ≠ [])
    (hHost : host ≠ [])
    (hName : ∀ c ∈ host, isSpace c = false)
    (hBlanks' : ∀ c ∈ blanks', isSpace c = true)
    (hApart' : blanks' ≠ [])
    (hSign' : sign' = [] ∨ sign' = ['-'] ∨ sign' = ['+'])
    (hDigits' : digits' ≠ [])
    (hDigit' : ∀ c ∈ digits', c.isDigit = true)
    (hEnd : StopsClass Char.isDigit rest) :
    NamesNode
      (blanks ++ (sign ++ (digits ++ (gap ++ (host ++
        (blanks' ++ (sign' ++ (digits' ++ rest))))))))
      ⟨scanInt (sign = ['-']) digits, host,
        scanInt (sign' = ['-']) digits'⟩

/- What a line is for. -/
inductive MapEntry where
  | comment
  | again
  | node (vars : NodeVars)

inductive MapLine : CString → MapEntry → Prop
| comment (text : CString) : MapLine ('#' :: text) .comment
| again
    (text : CString)
    (hBlank : ∀ c ∈ text, isSpace c = true) :
    MapLine text .again
| node
    {text : CString}
    {vars : NodeVars}
    (hNames : NamesNode text vars) :
    MapLine text (.node vars)

/-
  The nodes that the lines stand for. A line of blanks stands
  for the node before it.
-/
def listedNodes : NodeVars → List MapEntry → List NodeVars
| _, [] => []
| vars, .comment :: entries => listedNodes vars entries
| vars, .again :: entries => vars :: listedNodes vars entries
| _, .node vars :: entries => vars :: listedNodes vars entries

/- A line that `fgets` takes whole. -/
structure FitsLine (line : CString) : Prop where
  short : line.length + 2 ≤ btFilenameLen
  newline : newline ∉ line
  nul : nul ∉ line

instance : DecidablePred FitsLine := fun line =>
  decidable_of_iff
    (line.length + 2 ≤ btFilenameLen ∧ newline ∉ line ∧
      nul ∉ line)
    ⟨fun h => ⟨h.1, h.2.1, h.2.2⟩,
      fun h => ⟨h.short, h.newline, h.nul⟩⟩

theorem fgets_line
    {line : CString}
    (hFits : FitsLine line)
    (file : List Char) :
    fgets btFilenameLen (line ++ newline :: file) =
      some (line ++ [newline], file) := by
  have hShort := hFits.short
  have hPlain :
      ∀ c ∈ line, (decide (c ≠ newline)) = true := by
    intro c hMem
    rw [decide_eq_true_eq]
    rintro rfl
    exact hFits.newline hMem
  have hRoom :
      (line ++ newline :: file).take (btFilenameLen - 1) =
        line ++ newline ::
          file.take (btFilenameLen - 1 - line.length - 1) := by
    rw [List.take_append, List.take_of_length_le (by omega)]
    rw [List.take_cons (by omega)]
  have hUntil :
      (line ++ newline ::
          file.take (btFilenameLen - 1 - line.length - 1)
        ).takeWhile (· ≠ newline) = line :=
    takeWhile_stops hPlain
      (stopsClass_cons (by decide) _)
  have hRaw :
      (line ++ newline ::
          file.take (btFilenameLen - 1 - line.length - 1)
        ).take (line.length + 1) =
        line ++ [newline] := by
    rw [List.take_append, List.take_of_length_le (by omega),
      Nat.add_sub_cancel_left]
    rfl
  have hString :
      (line ++ [newline]).takeWhile (· ≠ nul) =
        line ++ [newline] := by
    rw [List.takeWhile_eq_self_iff]
    intro c hMem
    rw [decide_eq_true_eq]
    rintro rfl
    rcases List.mem_append.mp hMem with hLine | hLast
    · exact hFits.nul hLine
    · exact newline_ne_nul (List.mem_singleton.mp hLast).symm
  have hRest :
      (line ++ newline :: file).drop
          (line ++ [newline]).length =
        file := by
    have hAppend :
        (line ++ [newline] ++ file).drop
            (line ++ [newline]).length =
          file := List.drop_left
    rwa [List.append_assoc] at hAppend
  unfold fgets
  rw [if_neg (by simp), hRoom]
  dsimp only
  rw [hUntil, hRaw, hString, hRest]

/- `%d` takes a number, whatever blanks stand before it. -/
theorem scanD_number
    {blanks sign digits rest : List Char}
    (hBlanks : ∀ c ∈ blanks, isSpace c = true)
    (hSign : sign = [] ∨ sign = ['-'] ∨ sign = ['+'])
    (hDigits : digits ≠ [])
    (hDigit : ∀ c ∈ digits, c.isDigit = true)
    (hEnd : StopsClass Char.isDigit rest) :
    scanD (blanks ++ (sign ++ (digits ++ rest))) =
      some (scanInt (sign = ['-']) digits, rest) := by
  have hTake := takeWhile_stops hDigit hEnd
  have hDrop := dropWhile_stops hDigit hEnd
  unfold scanD
  rcases hSign with rfl | hMark
  · -- the first character behind the blanks is a digit
    rcases List.exists_cons_of_ne_nil hDigits with ⟨d, ds, rfl⟩
    rcases isDigit_plain (hDigit d List.mem_cons_self) with
      ⟨hNoBlank, hNoMinus, hNoPlus⟩
    rw [List.nil_append, List.cons_append,
      dropWhile_stops hBlanks (stopsClass_cons hNoBlank _)]
    have hNoSign : ¬ (d = '-' ∨ d = '+') := by
      simp [hNoMinus, hNoPlus]
    simp only [if_neg hNoSign]
    rw [List.cons_append] at hTake hDrop
    rw [hTake, hDrop, if_neg (List.cons_ne_nil _ _)]
    simp [hNoMinus]
  · -- it is the sign
    have hChar :
        ∃ c, sign = [c] ∧ (c = '-' ∨ c = '+') ∧
          isSpace c = false := by
      rcases hMark with rfl | rfl
      · exact ⟨'-', rfl, Or.inl rfl, rfl⟩
      · exact ⟨'+', rfl, Or.inr rfl, rfl⟩
    rcases hChar with ⟨c, rfl, hSign, hNoBlank⟩
    rw [List.singleton_append,
      dropWhile_stops hBlanks (stopsClass_cons hNoBlank _)]
    simp only [if_pos hSign]
    rw [hTake, hDrop, if_neg hDigits]
    simp

/- A line that names a node sets all three variables. -/
theorem sscanfNode_names
    (vars : NodeVars)
    {text : CString}
    {named : NodeVars}
    (hNames : NamesNode text named) :
    sscanfNode vars text = (3, named) := by
  cases hNames with
  | intro blanks sign digits gap host blanks' sign' digits'
      rest hBlanks hSign hDigits hDigit hGap hApart hHost hName
      hBlanks' hApart' hSign' hDigits' hDigit' hEnd =>
    rcases List.exists_cons_of_ne_nil hApart with ⟨g, gs, rfl⟩
    rcases List.exists_cons_of_ne_nil hHost with ⟨h, hs, rfl⟩
    rcases List.exists_cons_of_ne_nil hApart' with
      ⟨b, bs, rfl⟩
    have hNotDigit
        {c : Char}
        (hBlank : isSpace c = true) :
        c.isDigit = false := by
      by_contra hNot
      have hPlain := isDigit_plain (Bool.not_eq_false _ ▸ hNot)
      simp [hBlank] at hPlain
    have hFirst :=
      scanD_number hBlanks hSign hDigits hDigit
        (stopsClass_cons
          (hNotDigit (hGap g List.mem_cons_self))
          (gs ++ (h :: hs ++ (b :: bs ++
            (sign' ++ (digits' ++ rest))))))
    have hSecond :=
      scanD_number hBlanks' hSign' hDigits' hDigit' hEnd
    have hSome
        {text : CString}
        (hScan : scanD text ≠ none) :
        text.dropWhile isSpace ≠ [] := by
      intro hNone
      apply hScan
      rw [scanD, hNone]
    have hWord :
        StopsClass isSpace
          (h :: hs ++ (b :: bs ++
            (sign' ++ (digits' ++ rest)))) :=
      stopsClass_cons (hName h List.mem_cons_self) _
    have hNameChars :
        ∀ c ∈ h :: hs, (! isSpace c) = true := by
      intro c hMem
      rw [hName c hMem]
      rfl
    have hNameEnd :
        StopsClass (! isSpace ·)
          (b :: bs ++ (sign' ++ (digits' ++ rest))) := by
      refine stopsClass_cons ?_ _
      rw [hBlanks' b List.mem_cons_self]
      rfl
    have hDropWord := dropWhile_stops hGap hWord
    have hTakeName := takeWhile_stops hNameChars hNameEnd
    have hDropName := dropWhile_stops hNameChars hNameEnd
    unfold sscanfNode
    rw [if_neg (hSome (by
      rw [← List.cons_append] at hFirst
      rw [hFirst]
      simp))]
    rw [← List.cons_append] at hFirst
    rw [hFirst]
    simp only [hDropWord]
    rw [List.cons_append] at hTakeName hDropName ⊢
    simp only [hTakeName, hDropName, hSecond]

/- The end of the line may stand behind the port. -/
theorem NamesNode.newline
    {line : CString}
    {vars : NodeVars}
    (hNames : NamesNode line vars) :
    NamesNode (line ++ [newline]) vars := by
  cases hNames with
  | intro blanks sign digits gap host blanks' sign' digits'
      rest hBlanks hSign hDigits hDigit hGap hApart hHost hName
      hBlanks' hApart' hSign' hDigits' hDigit' hEnd =>
    have hEnd' :
        StopsClass Char.isDigit (rest ++ [BtPeer.newline]) := by
      cases rest with
      | nil => exact stopsClass_cons (by decide) _
      | cons c cs =>
          exact stopsClass_cons (hEnd c cs rfl) _
    simp only [List.append_assoc]
    exact NamesNode.intro blanks sign digits gap host blanks'
      sign' digits' _ hBlanks hSign hDigits hDigit hGap hApart
      hHost hName hBlanks' hApart' hSign' hDigits' hDigit'
      hEnd'

/- Such a line is no comment. -/
theorem NamesNode.charAt_ne
    {line : CString}
    {vars : NodeVars}
    (hNames : NamesNode line vars) :
    charAt line 0 ≠ '#' := by
  have hScan := sscanfNode_names vars hNames
  intro hHead
  cases line with
  | nil => exact absurd hHead (by decide)
  | cons c cs =>
      have hChar : c = '#' := hHead
      subst hChar
      have hNumber : scanD ('#' :: cs) = none := by
        simp [scanD, isSpace]
      have hBlank :
          ('#' :: cs).dropWhile isSpace ≠ [] := by
        simp [isSpace]
      rw [sscanfNode, if_neg hBlank, hNumber] at hScan
      simp at hScan

theorem dropWhile_blank
    {text : CString}
    (hBlank : ∀ c ∈ text, isSpace c = true) :
    text.dropWhile isSpace = [] :=
  List.dropWhile_eq_nil_iff.mpr hBlank

/- A turn of the loop on a line of each kind. -/
theorem nodeLine_entry
    (gethostbyname : CString → Option Word)
    (vars : NodeVars)
    (peers : List PeerInfo)
    {line : CString}
    {entry : MapEntry}
    (hLine : MapLine line entry) :
    nodeLine gethostbyname vars peers (line ++ [newline]) =
      match entry with
      | .comment => some (vars, peers)
      | .again =>
          (vars.node gethostbyname).map fun node =>
            (vars, node :: peers)
      | .node named =>
          (named.node gethostbyname).map fun node =>
            (named, node :: peers) := by
  cases hLine with
  | comment text => rfl
  | again text hBlank =>
      have hBlank' :
          ∀ c ∈ line ++ [newline], isSpace c = true := by
        intro c hMem
        rcases List.mem_append.mp hMem with hText | hLast
        · exact hBlank c hText
        · rw [List.mem_singleton.mp hLast]
          rfl
      have hHead : charAt (line ++ [newline]) 0 ≠ '#' := by
        intro hHash
        have hSpace : isSpace '#' = true := by
          rw [← hHash]
          apply hBlank'
          cases line with
          | nil => exact List.mem_singleton.mpr rfl
          | cons c cs => exact List.mem_cons_self
        exact absurd hSpace (by decide)
      unfold nodeLine sscanfNode
      rw [if_neg hHead, if_pos (dropWhile_blank hBlank')]
      rfl
  | node hNames =>
      unfold nodeLine
      rw [if_neg hNames.newline.charAt_ne,
        sscanfNode_names vars hNames.newline]
      rfl

/- The nodes are put in front one after another. -/
def addNodes
    (gethostbyname : CString → Option Word)
    (peers : List PeerInfo)
    (listed : List NodeVars) : Option (List PeerInfo) :=
  (listed.mapM (NodeVars.node gethostbyname)).map
    (fun nodes => nodes.reverse ++ peers)

theorem addNodes_cons
    (gethostbyname : CString → Option Word)
    (peers : List PeerInfo)
    (vars : NodeVars)
    (listed : List NodeVars) :
    addNodes gethostbyname peers (vars :: listed) =
      (vars.node gethostbyname).bind fun node =>
        addNodes gethostbyname (node :: peers) listed := by
  unfold addNodes
  rw [List.mapM_cons]
  cases hNode : vars.node gethostbyname with
  | none => rfl
  | some node =>
      cases hRest : listed.mapM (NodeVars.node gethostbyname)
        with
      | none => rfl
      | some nodes => simp

/- The file of the lines. -/
def linesText (lines : List CString) : List Char :=
  lines.flatMap (fun line => line ++ [newline])

/- The loop makes the nodes that the lines stand for. -/
theorem nodeLoop_lines
    (gethostbyname : CString → Option Word)
    {lines : List CString}
    {entries : List MapEntry}
    (hLines : List.Forall₂ MapLine lines entries)
    (hFits : ∀ line ∈ lines, FitsLine line)
    (k : Nat)
    (hFuel : (linesText lines).length ≤ k)
    (vars : NodeVars)
    (peers : List PeerInfo) :
    nodeLoop gethostbyname k vars peers (linesText lines) =
      addNodes gethostbyname peers
        (listedNodes vars entries) := by
  induction hLines generalizing k vars peers with
  | nil =>
      cases k with
      | zero => rfl
      | succ k => rfl
  | @cons line entry lines entries hLine hLines ih =>
      have hText :
          linesText (line :: lines) =
            line ++ newline :: linesText lines := by
        simp [linesText]
      rw [hText, List.length_append, List.length_cons] at hFuel
      cases k with
      | zero => omega
      | succ k =>
          have hRest :=
            ih (fun l hMem =>
                hFits l (List.mem_cons_of_mem _ hMem))
              k (by omega)
          rw [hText, nodeLoop,
            fgets_line (hFits line List.mem_cons_self)]
          dsimp only
          rw [nodeLine_entry gethostbyname vars peers hLine]
          cases entry with
          | comment => exact hRest vars peers
          | again =>
              rw [listedNodes, addNodes_cons]
              dsimp only
              cases vars.node gethostbyname with
              | none => rfl
              | some node => exact hRest vars (node :: peers)
          | node named =>
              rw [listedNodes, addNodes_cons]
              dsimp only
              cases named.node gethostbyname with
              | none => rfl
              | some node => exact hRest named (node :: peers)

end BtPeer

------------------------------------------------------------
-- What The List Says
------------------------------------------------------------

namespace BtPeer

/-
  The list of nodes is read as it is meant: comments are
  skipped, a line of blanks repeats the node before it, and
  the last node comes first. One name that cannot be resolved
  ends the program.
-/
theorem nodesMap_parsed
    (gethostbyname : CString → Option Word)
    (vars : NodeVars)
    (config : BtConfig)
    (lines : List CString)
    (entries : List MapEntry)
    (hLines : List.Forall₂ MapLine lines entries)
    (hFits : ∀ line ∈ lines, FitsLine line) :
    btParsePeerList gethostbyname vars
        (some (linesText lines)) config =
      match
        (listedNodes vars entries).mapM
          (NodeVars.node gethostbyname)
      with
      | none => .error .ended
      | some nodes =>
          .ok
            { config with
              peers := nodes.reverse ++ config.peers } := by
  unfold btParsePeerList
  dsimp only
  rw [nodeLoop_lines gethostbyname hLines hFits _
    (Nat.le_refl _) vars config.peers, addNodes]
  cases (listedNodes vars entries).mapM
      (NodeVars.node gethostbyname) with
  | none => rfl
  | some nodes => rfl

/- A line "1 a 1". -/
theorem sampleLine
    {id port : Char}
    (hId : id.isDigit = true)
    (hPort : port.isDigit = true) :
    MapLine [id, ' ', 'a', ' ', port]
      (.node
        ⟨scanInt false [id], ['a'], scanInt false [port]⟩) :=
  .node
    (NamesNode.intro [] [] [id] [' '] ['a'] [' '] [] [port] []
      (List.forall_mem_nil _) (Or.inl rfl) (by simp)
      (List.forall_mem_singleton.mpr hId)
      (List.forall_mem_singleton.mpr rfl) (by simp) (by simp)
      (List.forall_mem_singleton.mpr rfl)
      (List.forall_mem_singleton.mpr rfl) (by simp)
      (Or.inl rfl) (by simp)
      (List.forall_mem_singleton.mpr hPort) nofun)

theorem nodesMap_parsed_three :
    btParsePeerList (fun _ => some 1) ⟨0, [], 0⟩
        (some
          (linesText
            [['#'], ['1', ' ', 'a', ' ', '1'], []]))
        btInit =
      .ok
        { btInit with
          peers := [⟨1, ⟨1, 256⟩⟩, ⟨1, ⟨1, 256⟩⟩] } := by
  have hParsed :=
    nodesMap_parsed (fun _ => some 1) ⟨0, [], 0⟩ btInit
      [['#'], ['1', ' ', 'a', ' ', '1'], []]
      [.comment, .node ⟨scanInt false ['1'], ['a'], 1⟩,
        .again]
      (.cons (.comment []) (.cons (@sampleLine '1' '1' rfl rfl)
        (.cons (.again [] (List.forall_mem_nil _)) .nil)))
      (by decide)
  exact hParsed

end BtPeer

------------------------------------------------------------
-- The Others
------------------------------------------------------------

namespace BtPeer

open EventMachine

theorem otherAddrs_cons
    (p : PeerInfo)
    (peers : List PeerInfo)
    (selfid : Int) :
    otherAddrs (p :: peers) selfid =
      if p.id.toInt = selfid then otherAddrs peers selfid
      else p.addr :: otherAddrs peers selfid := by
  by_cases hSelf : p.id.toInt = selfid
  · rw [if_pos hSelf]
    simp [otherAddrs, hSelf]
  · rw [if_neg hSelf]
    simp [otherAddrs, hSelf]

theorem initPeerlistLoop_spec
    (selfid : Int)
    (infos : List PeerInfo)
    (i : Nat)
    (peers : Nat → Peer) :
    let list := initPeerlistLoop selfid infos i peers
    let addrs := otherAddrs infos selfid
    list.count = i + addrs.length ∧
      (∀ j, j < i → list.peers j = peers j) ∧
      (∀ j, i + addrs.length ≤ j → list.peers j = peers j) ∧
      ∀ j addr, addrs[j]? = some addr →
        list.peers (i + j) = initPeer addr := by
  induction infos generalizing i peers with
  | nil =>
      refine ⟨rfl, fun _ _ => rfl, fun _ _ => rfl, ?_⟩
      intro j addr hGet
      cases hGet
  | cons p infos ih =>
      rw [otherAddrs_cons, initPeerlistLoop]
      by_cases hSelf : p.id.toInt = selfid
      · rw [if_pos hSelf, if_pos hSelf]
        exact ih i peers
      · rw [if_neg hSelf, if_neg hSelf]
        rcases ih (i + 1)
            (Function.update peers i (initPeer p.addr)) with
          ⟨hCount, hBelow, hAbove, hGet⟩
        refine ⟨?_, ?_, ?_, ?_⟩
        · rw [hCount, List.length_cons]
          omega
        · intro j hj
          rw [hBelow j (by omega)]
          exact Function.update_of_ne (by omega) _ _
        · intro j hj
          rw [List.length_cons] at hj
          rw [hAbove j (by omega)]
          exact Function.update_of_ne (by omega) _ _
        · intro j addr hAddr
          cases j with
          | zero =>
              rw [List.getElem?_cons_zero,
                Option.some.injEq] at hAddr
              subst hAddr
              have hHere := hBelow i (Nat.lt_succ_self i)
              rw [Function.update_self] at hHere
              exact hHere
          | succ j =>
              rw [List.getElem?_cons_succ] at hAddr
              rw [← hGet j addr hAddr]
              congr 1
              omega

/- The peers are the other nodes, the last of the file first. -/
theorem initPeerlist_eq
    (infos : List PeerInfo)
    (selfid : Int) :
    initPeerlist infos selfid =
      { count := (otherAddrs infos selfid).length
        peers := fun i =>
          initPeer
            ((otherAddrs infos selfid).getD i ⟨0, 0⟩) } := by
  rcases initPeerlistLoop_spec selfid infos 0
      (fun _ => initPeer ⟨0, 0⟩) with
    ⟨hCount, _, hAbove, hGet⟩
  simp only [Nat.zero_add] at hCount hAbove hGet
  have hPeers :
      (initPeerlist infos selfid).peers = fun i =>
        initPeer
          ((otherAddrs infos selfid).getD i ⟨0, 0⟩) := by
    funext i
    rw [List.getD_eq_getElem?_getD]
    cases hAt : (otherAddrs infos selfid)[i]? with
    | none =>
        exact hAbove i (List.getElem?_eq_none_iff.mp hAt)
    | some addr => exact hGet i addr hAt
  calc
    initPeerlist infos selfid =
        ⟨(initPeerlist infos selfid).count,
          (initPeerlist infos selfid).peers⟩ := rfl
    _ = _ := by
      rw [hPeers]
      congr 1

/-
  What a peer that has started knows: who it is, and a server
  with all the other nodes for its peers.
-/
structure Started
    (w : World)
    (config : BtConfig)
    (s : PeerServer) : Prop where
  identity : config.identity ≠ 0
  own :
    ∃ p ∈ config.peers,
      p.id = config.identity ∧
        config.myport = ntohs p.addr.port
  few :
    (otherAddrs config.peers config.identity.toInt).length ≤
      btMaxPeers
  server :
    ∃ master haschunks,
      s =
        peerInit
          (otherAddrs config.peers config.identity.toInt)
          (fileView master) haschunks config.maxConn w.files

theorem checkConfig_ok
    {config config' : BtConfig}
    (hOk : checkConfig config = .ok config') :
    config'.identity ≠ 0 ∧
      ∃ p ∈ config'.peers,
        p.id = config'.identity ∧
          config'.myport = ntohs p.addr.port := by
  unfold checkConfig at hOk
  split at hOk
  · cases hOk
  · rename_i hIdentity
    split at hOk
    · cases hOk
    · rename_i p hInfo
      split at hOk
      · cases hOk
      · cases hOk
        refine ⟨hIdentity, p,
          List.mem_of_find?_eq_some hInfo, ?_, rfl⟩
        have hId := List.find?_some hInfo
        rw [decide_eq_true_eq] at hId
        exact BitVec.toInt_inj.mp hId

theorem peerInitFiles_ok
    {w : World}
    {config : BtConfig}
    {s : PeerServer}
    (hOk : peerInitFiles w config = .ok s) :
    (otherAddrs config.peers config.identity.toInt).length ≤
        btMaxPeers ∧
      ∃ master haschunks,
        s =
          peerInit
            (otherAddrs config.peers config.identity.toInt)
            (fileView master) haschunks config.maxConn
            w.files := by
  unfold peerInitFiles at hOk
  rw [initPeerlist_eq] at hOk
  split at hOk
  · cases hOk
  · split at hOk
    · cases hOk
    · rename_i hFew
      refine ⟨Nat.le_of_not_lt hFew, ?_⟩
      cases hName : masterName w config with
      | error stop =>
          rw [hName] at hOk
          cases hOk
      | ok name =>
          rw [hName] at hOk
          dsimp only [bind, Except.bind] at hOk
          split at hOk
          · cases hOk
          · rename_i master _
            split at hOk
            · cases hOk
            · split at hOk
              · cases hOk
              · rename_i haschunks _
                exact ⟨master, haschunks,
                  (Except.ok.inj hOk).symm⟩

theorem peerMain_spec
    {w : World}
    {opts : List (Char × CString)}
    {config : BtConfig}
    {s : PeerServer}
    (hStart : peerMain w opts = .ok (config, s)) :
    Started w config s := by
  unfold peerMain at hStart
  cases hConfig :
      btParseCommandLine w (testingConfig btInit) opts with
  | error stop =>
      rw [hConfig] at hStart
      cases hStart
  | ok config' =>
      rw [hConfig] at hStart
      dsimp only [bind, Except.bind] at hStart
      cases hInit : peerInitFiles w config' with
      | error stop =>
          rw [hInit] at hStart
          cases hStart
      | ok s' =>
          rw [hInit] at hStart
          cases hStart
          rcases peerInitFiles_ok hInit with ⟨hFew, hServer⟩
          -- the last step of the parsing is the check
          have hChecked :
              ∃ config'', checkConfig config'' = .ok config := by
            unfold btParseCommandLine at hConfig
            cases hFold :
                opts.foldlM parseOption
                  (testingConfig btInit) with
            | error stop =>
                rw [hFold] at hConfig
                cases hConfig
            | ok parsed =>
                rw [hFold] at hConfig
                dsimp only [bind, Except.bind] at hConfig
                split at hConfig
                · cases hConfig
                · exact ⟨_, hConfig⟩
          rcases hChecked with ⟨config'', hCheck⟩
          rcases checkConfig_ok hCheck with ⟨hIdentity, hOwn⟩
          exact ⟨hIdentity, hOwn, hFew, hServer⟩

end BtPeer

------------------------------------------------------------
-- A World With Two Nodes
------------------------------------------------------------

namespace BtPeer

open EventMachine

/- The bytes of a text. -/
def bytesOf (text : List Char) : List Byte :=
  text.map (fun c => BitVec.ofNat 8 c.toNat)

/- The lines "1 a 1" and "2 a 1". -/
def sampleLines : List CString :=
  [['1', ' ', 'a', ' ', '1'], ['2', ' ', 'a', ' ', '1']]

def sampleWorld : World where
  gethostbyname := fun _ => some 1
  fopen := fun name =>
    if name = ['p'] then some (bytesOf (linesText sampleLines))
    else if name = ['f'] then
      some (fileTag ++ 0x20 :: [0x6D, lineEnd])
    else if name = ['m'] ∨ name = ['c'] then some []
    else none
  fopenOutput := fun _ => true
  startTs := 1
  alloc := ⟨true, fun _ => .inPlace⟩
  steps := 2
  vars := ⟨0, [], 0⟩
  files := fun _ _ => none

def sampleOpts : List (Char × CString) :=
  [('p', ['p']), ('c', ['c']), ('f', ['f']), ('m', ['1']),
    ('i', ['1'])]

/- A command that makes the server ask its only peer. -/
def sampleCommand : List ServerEvent :=
  [.command sampleEnv [] [] (some ('0' :: ' ' :: zeroHash))]

theorem sampleStart_asks :
    ((peerMain sampleWorld sampleOpts).toOption.map
      (fun r =>
        (run (PeerServer.step (fun _ _ => 0)) r.2
          sampleCommand).sent.map Datagram.dest)) =
      some [0] := by
  decide +kernel

end BtPeer

------------------------------------------------------------
-- Whom A Peer Talks To
------------------------------------------------------------

namespace BtPeer

open EventMachine PeerServer

/-
  A peer that has started never sends to itself: every
  datagram of every run goes to the address of a node of the
  list that has another id.
-/
theorem started_sends_to_others
    (sha1 : List Byte → Nat → Byte)
    (w : World)
    (opts : List (Char × CString))
    (config : BtConfig)
    (start : PeerServer)
    (hStart : peerMain w opts = .ok (config, start))
    (es : List ServerEvent)
    (d : Datagram)
    (hSent :
      d ∈ (run (PeerServer.step sha1) start es).sent) :
    ∃ p ∈ config.peers,
      p.id ≠ config.identity ∧
        p.addr = (start.peer d.dest).addr := by
  rcases (peerMain_spec hStart).server with
    ⟨master, haschunks, rfl⟩
  have hJustified :=
    (run_justified sha1
      (otherAddrs config.peers config.identity.toInt)
      (fileView master) haschunks config.maxConn w.files
      es).sent d hSent
  have hListed := hJustified.listed.1
  -- the addresses of the peers are those of the others
  have hOther :
      (otherAddrs config.peers config.identity.toInt).getD
          d.dest ⟨0, 0⟩ ∈
        otherAddrs config.peers config.identity.toInt := by
    rw [List.getD_eq_getElem _ _ hListed]
    exact List.getElem_mem hListed
  rcases List.mem_map.mp hOther with ⟨p, hMem, hAddr⟩
  rcases List.mem_filter.mp hMem with ⟨hNode, hId⟩
  rw [decide_eq_true_eq] at hId
  refine ⟨p, hNode, ?_, hAddr⟩
  intro hSame
  exact hId (congrArg BitVec.toInt hSame)

theorem started_sends_to_others_sample :
    ∃ config start,
      peerMain sampleWorld sampleOpts = .ok (config, start) ∧
        ∃ d ∈ (run (PeerServer.step (fun _ _ => 0)) start
            sampleCommand).sent,
          ∃ p ∈ config.peers,
            p.id ≠ config.identity ∧
              p.addr = (start.peer d.dest).addr := by
  have hAsks := sampleStart_asks
  cases hStart : peerMain sampleWorld sampleOpts with
  | error stop =>
      rw [hStart] at hAsks
      cases hAsks
  | ok r =>
      rcases r with ⟨config, start⟩
      rw [hStart] at hAsks
      have hDest :
          (run (PeerServer.step (fun _ _ => 0)) start
            sampleCommand).sent.map Datagram.dest = [0] :=
        Option.some.inj hAsks
      have hMem :
          0 ∈ (run (PeerServer.step (fun _ _ => 0)) start
            sampleCommand).sent.map Datagram.dest := by
        rw [hDest]
        exact List.mem_singleton.mpr rfl
      rcases List.mem_map.mp hMem with ⟨d, hSent, _⟩
      exact ⟨config, start, rfl, d, hSent,
        started_sends_to_others (fun _ _ => 0) sampleWorld
          sampleOpts config start hStart sampleCommand d
          hSent⟩

end BtPeer

------------------------------------------------------------
-- A Peer That Can Start
------------------------------------------------------------

namespace BtPeer

open EventMachine PeerServer

/-
  The command line of a peer and the files that it names: the
  list of nodes, the file that says where the chunks are, and
  the list of the chunks that the peer has.
-/
structure Deployment where
  mapName : CString
  hasName : CString
  chunkName : CString
  maxConn : Nat
  identity : Nat
  lines : List CString
  entries : List MapEntry
  nodes : List PeerInfo
  path : List Byte
  rest : List Byte
  master : List Byte
  has : List Byte

namespace Deployment

def opts (d : Deployment) : List (Char × CString) :=
  [('p', d.mapName), ('c', d.hasName), ('f', d.chunkName),
    ('m', Nat.toDigits 10 d.maxConn),
    ('i', Nat.toDigits 10 d.identity)]

/- The nodes other than the peer, the last of the file first. -/
def others (d : Deployment) : List Address :=
  otherAddrs d.nodes.reverse d.identity

/- The names fit, and the peer is one of the nodes. -/
structure WellFormed
    (d : Deployment)
    (w : World) : Prop where
  mapName : d.mapName.length < btFilenameLen
  hasName : d.hasName.length < btFilenameLen
  chunkName : d.chunkName.length < btFilenameLen
  hasNamed : d.hasName ≠ []
  chunkNamed : d.chunkName ≠ []
  maxConn : d.maxConn < 2147483648
  identity : 0 < d.identity
  short : d.identity < 32768
  lines : List.Forall₂ MapLine d.lines d.entries
  fits : ∀ line ∈ d.lines, FitsLine line
  resolved :
    (listedNodes w.vars d.entries).mapM
        (NodeVars.node w.gethostbyname) =
      some d.nodes
  own : ∃ p ∈ d.nodes, p.id = BitVec.ofNat 16 d.identity
  few : d.others.length ≤ btMaxPeers
  newline : lineEnd ∉ d.path
  terminator : 0 ∉ d.path

/- Every file is there, and memory and clock do their work. -/
structure Present
    (d : Deployment)
    (w : World) : Prop where
  map :
    (w.fopen d.mapName).map textOf = some (linesText d.lines)
  chunk :
    w.fopen d.chunkName =
      some (fileTag ++ 0x20 :: (d.path ++ lineEnd :: d.rest))
  master : w.fopen (textOf d.path) = some d.master
  has : w.fopen d.hasName = some d.has
  output : w.fopenOutput btInit.outputFile = true
  clock : w.startTs ≠ 0
  steps : d.path.length < w.steps
  readable :
    LineReadable w.alloc (d.path ++ lineEnd :: d.rest)

/- `port` stands in a line of the list that names the peer. -/
def OwnPort
    (d : Deployment)
    (w : World)
    (port : Half) : Prop :=
  ∃ vars ∈ listedNodes w.vars d.entries,
    BitVec.ofInt 16 vars.nodeid = BitVec.ofNat 16 d.identity ∧
      port = BitVec.ofInt 16 vars.port

end Deployment

/- `atoi` reads back what `%d` printed. -/
theorem atoi_toDigits
    {n : Nat}
    (hn : n < 2147483648) :
    atoi (Nat.toDigits 10 n) = n := by
  have hDigit :
      ∀ c ∈ Nat.toDigits 10 n, c.isDigit = true :=
    fun c hc =>
      Nat.isDigit_of_mem_toDigits (by omega) (by omega) hc
  have hScan :=
    @scanD_number [] [] (Nat.toDigits 10 n) []
      (List.forall_mem_nil _) (Or.inl rfl)
      Nat.toDigits_ne_nil hDigit nofun
  rw [List.nil_append, List.nil_append, List.append_nil]
    at hScan
  rw [atoi, hScan]
  exact scanInt_toDigits hn

/- A loop that has returned stays so. -/
theorem readLoop_add
    {alloc : Allocator}
    {n : Nat}
    {s : ReadState}
    {str : Nat → Byte}
    (hLoop : readLoop alloc n s = .returned str)
    (k : Nat) :
    readLoop alloc (n + k) s = .returned str := by
  induction n generalizing s with
  | zero => cases hLoop
  | succ n ih =>
      rw [Nat.add_right_comm]
      rw [readLoop] at hLoop ⊢
      cases hStep : readStep alloc s with
      | running s' =>
          rw [hStep] at hLoop
          exact ih hLoop
      | returned str' =>
          rw [hStep] at hLoop
          exact hLoop
      | null =>
          rw [hStep] at hLoop
          cases hLoop
      | undefined =>
          rw [hStep] at hLoop
          cases hLoop

theorem lineOf_line
    {path : List Byte}
    (hPath : lineEnd ∉ path)
    (rest : List Byte) :
    lineOf (path ++ lineEnd :: rest) = path := by
  have hPlain : ∀ b ∈ path, decide (b ≠ lineEnd) = true := by
    intro b hMem
    rw [decide_eq_true_eq]
    rintro rfl
    exact hPath hMem
  rw [lineOf, List.takeWhile_append_of_pos hPlain]
  simp

theorem toNat_charOf (b : Byte) :
    (Char.ofNat b.toNat).toNat = b.toNat := by
  have hLt := b.isLt
  rw [Char.ofNat, dif_pos (Or.inl (by omega))]
  rfl

/- A string in memory is read up to its terminator. -/
theorem stringOf_line
    {str : Nat → Byte}
    {path : List Byte}
    (hBytes : ∀ i b, path[i]? = some b → str i = b)
    (hEnd : str path.length = 0)
    (hPath : 0 ∉ path)
    {size : Nat}
    (hSize : path.length < size) :
    stringOf str size = textOf path := by
  rcases Nat.exists_eq_add_of_lt hSize with ⟨r, rfl⟩
  have hPathBlock :
      ByteMemory.block str 0 path.length = path := by
    apply List.ext_getElem?
    intro i
    by_cases hi : i < path.length
    · rw [List.getElem?_eq_getElem hi]
      simp only [ByteMemory.block, List.getElem?_map,
        List.getElem?_range hi, Option.map_some, Nat.zero_add]
      rw [hBytes i path[i] (List.getElem?_eq_getElem hi)]
    · rw [List.getElem?_eq_none (by simpa using hi),
        List.getElem?_eq_none (by simpa using hi)]
  have hBlock :
      ByteMemory.block str 0 (path.length + r + 1) =
        path ++ 0 ::
          ByteMemory.block str (path.length + 1) r := by
    have hOne (a : Nat) :
        ByteMemory.block str a 1 = [str a] := by
      simp [ByteMemory.block]
    rw [show path.length + r + 1 = path.length + (1 + r) by
        omega,
      ByteMemory.block_add, ByteMemory.block_add, hPathBlock,
      Nat.zero_add, hOne, hEnd]
    rfl
  have hPlain :
      ∀ c ∈ textOf path, decide (c ≠ nul) = true := by
    intro c hMem
    rcases List.mem_map.mp hMem with ⟨b, hB, rfl⟩
    rw [decide_eq_true_eq]
    intro hNul
    have hZero := congrArg Char.toNat hNul
    rw [toNat_charOf] at hZero
    have hByte : b = 0 := BitVec.eq_of_toNat_eq hZero
    rw [hByte] at hB
    exact hPath hB
  rw [stringOf, hBlock, textOf, List.map_append]
  exact takeWhile_stops hPlain (stopsClass_cons (by decide) _)

/- A configuration that passes the tests. -/
theorem checkConfig_eq
    {config : BtConfig}
    {p : PeerInfo}
    (hIdentity : config.identity ≠ 0)
    (hOwn :
      btPeerInfo config config.identity.toInt = some p)
    (hChunk : config.chunkFile ≠ [])
    (hHas : config.hasChunkFile ≠ []) :
    checkConfig config =
      .ok { config with myport := ntohs p.addr.port } := by
  have hNames :
      ¬ (config.chunkFile = [] ∨ config.hasChunkFile = []) := by
    rintro (hNone | hNone)
    · exact hChunk hNone
    · exact hHas hNone
  unfold checkConfig
  rw [if_neg hIdentity, hOwn]
  dsimp only
  rw [if_neg hNames]

namespace Deployment

variable {d : Deployment}
variable {w : World}

/- What the options set, and then the list of nodes. -/
def parsed
    (d : Deployment)
    (peers : List PeerInfo) : BtConfig :=
  { testingConfig btInit with
    peerListFile := d.mapName
    hasChunkFile := d.hasName
    chunkFile := d.chunkName
    maxConn := d.maxConn
    identity := BitVec.ofNat 16 d.identity
    peers := peers }

theorem parseOptions
    (hFormed : d.WellFormed w) :
    d.opts.foldlM parseOption (testingConfig btInit) =
      .ok (d.parsed []) := by
  have hConn := atoi_toDigits hFormed.maxConn
  have hId := @atoi_toDigits d.identity (by
    have hShort := hFormed.short
    omega)
  simp only [opts, List.foldlM_cons, List.foldlM_nil,
    parseOption, fileName, if_pos hFormed.mapName,
    if_pos hFormed.hasName, if_pos hFormed.chunkName, hConn,
    hId]
  rfl

/- A node of the list is made of what one line names. -/
theorem line_of_node
    {gethostbyname : CString → Option Word}
    {listed : List NodeVars}
    {nodes : List PeerInfo}
    (hNodes :
      listed.mapM (NodeVars.node gethostbyname) = some nodes)
    {p : PeerInfo}
    (hMem : p ∈ nodes) :
    ∃ vars ∈ listed,
      p.id = BitVec.ofInt 16 vars.nodeid ∧
        ntohs p.addr.port = BitVec.ofInt 16 vars.port := by
  induction listed generalizing nodes with
  | nil =>
      rw [List.mapM_nil] at hNodes
      cases hNodes
      cases hMem
  | cons vars listed ih =>
      rw [List.mapM_cons] at hNodes
      rcases Option.bind_eq_some_iff.mp hNodes with
        ⟨node, hNode, hRest⟩
      rcases Option.bind_eq_some_iff.mp hRest with
        ⟨rest, hListed, hAll⟩
      cases hAll
      rcases List.mem_cons.mp hMem with hHere | hBehind
      · rcases Option.map_eq_some_iff.mp hNode with
          ⟨ip, _, hMade⟩
        refine ⟨vars, List.mem_cons_self, ?_, ?_⟩
        · rw [hHere, ← hMade]
        · rw [hHere, ← hMade]
          exact ntohs_htons _
      · rcases ih hListed hBehind with ⟨vars', hOld, hPort⟩
        exact ⟨vars', List.mem_cons_of_mem vars hOld, hPort⟩

theorem identity_toInt
    (hFormed : d.WellFormed w) :
    (BitVec.ofNat 16 d.identity).toInt = d.identity := by
  have hShort := hFormed.short
  rw [BitVec.toInt_eq_toNat_cond, BitVec.toNat_ofNat,
    Nat.mod_eq_of_lt (by omega), if_pos (by omega)]

/- What stands in the configuration at the end. -/
theorem parseCommandLine
    (hFormed : d.WellFormed w)
    (hPresent : d.Present w) :
    ∃ config,
      btParseCommandLine w (testingConfig btInit) d.opts =
          .ok config ∧
        config.peers = d.nodes.reverse ∧
        config.identity = BitVec.ofNat 16 d.identity ∧
        config.maxConn = d.maxConn ∧
        config.chunkFile = d.chunkName ∧
        config.hasChunkFile = d.hasName ∧
        config.noOutput = false ∧
        config.outputFile = btInit.outputFile ∧
        ∃ p ∈ d.nodes,
          p.id = BitVec.ofNat 16 d.identity ∧
            config.myport = ntohs p.addr.port := by
  have hList :
      btParsePeerList w.gethostbyname w.vars
          ((w.fopen d.mapName).map textOf) (d.parsed []) =
        .ok (d.parsed d.nodes.reverse) := by
    have hLoop :=
      nodeLoop_lines w.gethostbyname hFormed.lines
        hFormed.fits _ (Nat.le_refl _) w.vars []
    rw [addNodes, hFormed.resolved, Option.map_some,
      List.append_nil] at hLoop
    rw [hPresent.map, btParsePeerList,
      show (d.parsed []).peers = [] from rfl, hLoop]
    rfl
  have hNonzero : (d.parsed d.nodes.reverse).identity ≠ 0 := by
    intro hZero
    have hInt := identity_toInt hFormed
    have hPos := hFormed.identity
    rw [show BitVec.ofNat 16 d.identity = 0 from hZero] at hInt
    simp at hInt
    omega
  rcases hFormed.own with ⟨p, hMem, hId⟩
  have hFound :
      ∃ q,
        btPeerInfo (d.parsed d.nodes.reverse)
            (d.parsed d.nodes.reverse).identity.toInt =
          some q := by
    apply Option.isSome_iff_exists.mp
    rw [btPeerInfo, List.find?_isSome]
    refine ⟨p, List.mem_reverse.mpr hMem, ?_⟩
    rw [decide_eq_true_eq, hId]
    rfl
  rcases hFound with ⟨q, hQ⟩
  have hListed : q ∈ d.nodes :=
    List.mem_reverse.mp (List.mem_of_find?_eq_some hQ)
  have hSame := List.find?_some hQ
  rw [decide_eq_true_eq, BitVec.toInt_inj] at hSame
  have hChecked :=
    checkConfig_eq hNonzero hQ hFormed.chunkNamed
      hFormed.hasNamed
  refine
    ⟨{ d.parsed d.nodes.reverse with
        myport := ntohs q.addr.port },
      ?_, rfl, rfl, rfl, rfl, rfl, rfl, rfl, q, hListed, hSame,
      rfl⟩
  rw [btParseCommandLine, parseOptions hFormed]
  dsimp only [bind, Except.bind]
  rw [show (d.parsed []).peerListFile = d.mapName from rfl,
    hList]
  exact hChecked

/- The name behind "File:" is read. -/
theorem masterName_eq
    (hFormed : d.WellFormed w)
    (hPresent : d.Present w)
    {config : BtConfig}
    (hChunk : config.chunkFile = d.chunkName) :
    masterName w config = .ok (textOf d.path) := by
  have hLine := lineOf_line hFormed.newline d.rest
  have hRead := hPresent.readable
  have hGrow :=
    (grow_inPlace_iff w.alloc d.path.length).mpr (by
      have hLength := hRead.length
      have hRealloc := hRead.realloc
      rw [hLine] at hLength hRealloc
      exact ⟨hLength, hRealloc⟩)
  rcases readLoop_line (d.path ++ lineEnd :: d.rest)
      (show
        (readStart w.alloc
          (d.path ++ lineEnd :: d.rest)).file = _ from rfl)
      (inBlock_readStart hRead.malloc _) hRead.newline
      (by
        intro i hi
        rw [hLine] at hi
        rw [readStart_pos_add]
        exact hGrow i hi) with
    ⟨str, hLoop, _, hBytes, hZero⟩
  simp only [readStart_pos_add, hLine] at hLoop hBytes hZero
  have hSteps := hPresent.steps
  have hString :
      readString w.alloc (d.path ++ lineEnd :: d.rest)
          w.steps =
        .returned str := by
    have hMore :=
      readLoop_add hLoop (w.steps - (d.path.length + 1))
    rw [Nat.add_sub_of_le (by omega)] at hMore
    exact hMore
  have hTag :
      skipTag fileTag
          (fileTag ++
            0x20 :: (d.path ++ lineEnd :: d.rest)) =
        d.path ++ lineEnd :: d.rest := by
    simp [fileTag, skipTag]
  rw [masterName, hChunk, hPresent.chunk]
  dsimp only
  rw [hTag, hString]
  exact congrArg Except.ok
    (stringOf_line hBytes hZero hFormed.terminator hSteps)

/- The configuration and the server of a started peer. -/
theorem peerMain_eq
    (hFormed : d.WellFormed w)
    (hPresent : d.Present w) :
    ∃ config haschunks,
      (∃ p ∈ d.nodes,
        p.id = BitVec.ofNat 16 d.identity ∧
          config.myport = ntohs p.addr.port) ∧
        parseChunk ChunkList.zero (some (textOf d.has)) =
          some haschunks ∧
        peerMain w d.opts =
          .ok
            (config,
              peerInit d.others (fileView d.master) haschunks
                d.maxConn w.files) := by
  rcases parseCommandLine hFormed hPresent with
    ⟨config, hConfig, hPeers, hIdentity, hConn, hChunk, hHas,
      hOutput, hOutputFile, hPort⟩
  rcases parseChunk_opened ChunkList.zero (textOf d.has) with
    ⟨haschunks, hParse⟩
  have hList :
      initPeerlist config.peers config.identity.toInt =
        { count := d.others.length
          peers := fun i =>
            initPeer (d.others.getD i ⟨0, 0⟩) } := by
    rw [hPeers, hIdentity, identity_toInt hFormed]
    exact initPeerlist_eq _ _
  refine ⟨config, haschunks, hPort, hParse, ?_⟩
  have hInit :
      peerInitFiles w config =
        .ok
          (peerInit d.others (fileView d.master) haschunks
            d.maxConn w.files) := by
    unfold peerInitFiles
    rw [if_neg hPresent.clock, hList,
      if_neg (Nat.not_lt.mpr hFormed.few),
      masterName_eq hFormed hPresent hChunk]
    dsimp only [bind, Except.bind]
    rw [hPresent.master]
    dsimp only
    rw [if_neg (by
      rw [hOutputFile, hPresent.output]
      simp), hHas, hPresent.has, Option.map_some, hParse, hConn]
    rfl
  rw [peerMain, hConfig]
  dsimp only [bind, Except.bind]
  rw [hInit]
  rfl

end Deployment

/-
  A peer with a well-formed command line and its files at
  hand starts at the port of its line: its server has the
  other nodes of the list as peers, the chunks that its list
  of chunks says, and the bytes of the file that the chunk
  file names.
-/
theorem peerMain_starts
    (w : World)
    (d : Deployment)
    (hFormed : d.WellFormed w)
    (hPresent : d.Present w) :
    ∃ config haschunks,
      d.OwnPort w config.myport ∧
        parseChunk ChunkList.zero (some (textOf d.has)) =
          some haschunks ∧
        peerMain w d.opts =
          .ok
            (config,
              peerInit d.others (fileView d.master) haschunks
                d.maxConn w.files) := by
  rcases Deployment.peerMain_eq hFormed hPresent with
    ⟨config, haschunks, ⟨p, hListed, hId, hPort⟩, hStarted⟩
  refine ⟨config, haschunks, ?_, hStarted⟩
  rcases Deployment.line_of_node hFormed.resolved hListed with
    ⟨vars, hLine, hVars, hRead⟩
  exact ⟨vars, hLine, hVars.symm.trans hId,
    hPort.trans hRead⟩

/- The command line of the sample. -/
def sampleDeployment : Deployment where
  mapName := ['p']
  hasName := ['c']
  chunkName := ['f']
  maxConn := 1
  identity := 1
  lines := sampleLines
  entries :=
    [.node ⟨scanInt false ['1'], ['a'], 1⟩,
      .node ⟨scanInt false ['2'], ['a'], 1⟩]
  nodes := [⟨1, ⟨1, 256⟩⟩, ⟨2, ⟨1, 256⟩⟩]
  path := [0x6D]
  rest := []
  master := []
  has := []

theorem peerMain_starts_sample :
    ∃ config haschunks,
      sampleDeployment.OwnPort sampleWorld config.myport ∧
        parseChunk ChunkList.zero (some []) = some haschunks ∧
        peerMain sampleWorld
            [('p', ['p']), ('c', ['c']), ('f', ['f']),
              ('m', ['1']), ('i', ['1'])] =
          .ok
            (config,
              peerInit [⟨1, 256⟩] (fileView []) haschunks 1
                (fun _ _ => none)) := by
  have hFormed : sampleDeployment.WellFormed sampleWorld :=
    { mapName := by decide
      hasName := by decide
      chunkName := by decide
      hasNamed := by decide
      chunkNamed := by decide
      maxConn := by decide
      identity := by decide
      short := by decide
      lines :=
        .cons (@sampleLine '1' '1' rfl rfl)
          (.cons (@sampleLine '2' '1' rfl rfl) .nil)
      fits := by decide
      resolved := by decide
      own := by decide
      few := by decide
      newline := by decide
      terminator := by decide }
  have hPresent : sampleDeployment.Present sampleWorld :=
    { map := by decide
      chunk := by decide
      master := by decide
      has := by decide
      output := rfl
      clock := by decide
      steps := by decide
      readable :=
        { newline := by decide
          length := by decide
          malloc := rfl
          realloc := fun _ _ _ => rfl } }
  exact peerMain_starts sampleWorld sampleDeployment hFormed
    hPresent

end BtPeer
