import BtPeer.Packet.HashPacket
import BtPeer.Packet.Wire
import BtPeer.Server.ParsePacket

/-
  The discovery handshake between two servers: what is asked
  for in a WHOHAS packet, offered in the IHAVE answer and
  requested in the GET are the same hashes.

  Key definitions include:
    * `received`
    * `offeredHashes`
    * `ChunkList.HashStrings`
    * `RequestsAgree`

  Key theorems include:
    * `CarriesHashes.received`
    * `sendIhave_answer`
    * `offeredHashes_bytes`
    * `discovery_handshake`
-/

------------------------------------------------------------
-- Over The Wire
------------------------------------------------------------

namespace BtPeer

/- What the receiver decodes from the bytes of a packet. -/
def received
    (pkt : Packet)
    (stale : Nat → Byte) : Packet :=
  decodePkt (encodePkt pkt) stale pkt.pktLen.toNat

/- The hashes of a packet arrive. -/
theorem CarriesHashes.received
    {t : PacketType}
    {hashes : List CString}
    {pkt : Packet}
    (hCarries : CarriesHashes t hashes pkt)
    (stale : Nat → Byte) :
    CarriesHashes t hashes (received pkt stale) := by
  have hLen := hCarries.pktLen
  have hAlike : Alike pkt (BtPeer.received pkt stale) := by
    apply decodePkt_encodePkt
    rw [hLen, Nat.add_assoc]
    exact Nat.le_add_right _ _
  have hHeader := hAlike.header
  have hPayload := hAlike.payload
  generalize BtPeer.received pkt stale = pkt'
    at hHeader hPayload ⊢
  refine ⟨?_, ?_, ?_, ?_, ?_, hCarries.few, ?_, ?_⟩
  · rw [hHeader]
    exact hCarries.magic
  · rw [hHeader]
    exact hCarries.version
  · rw [hHeader]
    exact hCarries.type
  · rw [hHeader]
    exact hCarries.hdrLen
  · rw [hHeader]
    exact hLen
  · intro hCount
    have hSize : countBytes t = 4 := if_neg hCount
    rw [← hPayload 0]
    · exact hCarries.count hCount
    · rw [hLen, hSize]
      omega
  · rw [← hCarries.groups]
    apply List.map_congr_left
    intro m hm
    have hLt := List.mem_range.mp hm
    apply ByteMemory.block_congr
    intro i hi
    apply (hPayload _ _).symm
    rw [hLen]
    simp only [sha1HashSize_eq] at hi ⊢
    omega

end BtPeer

------------------------------------------------------------
-- The Answer
------------------------------------------------------------

namespace BtPeer

/- The hashes that `haschunks` has, in order. -/
def offeredHashes
    (haschunks : ChunkList)
    (hashes : List CString) : List CString :=
  hashes.filter
    (fun hash => (hash2Index haschunks hash).isSome)

theorem offeredHashes_cons_has
    {haschunks : ChunkList}
    {hash : CString}
    (hHas : (hash2Index haschunks hash).isSome = true)
    (hashes : List CString) :
    offeredHashes haschunks (hash :: hashes) =
      hash :: offeredHashes haschunks hashes :=
  List.filter_cons_of_pos hHas

theorem offeredHashes_cons_lacks
    {haschunks : ChunkList}
    {hash : CString}
    (hLacks : ¬ (hash2Index haschunks hash).isSome = true)
    (hashes : List CString) :
    offeredHashes haschunks (hash :: hashes) =
      offeredHashes haschunks hashes :=
  List.filter_cons_of_neg hLacks

/-
  The loop of `send_ihave` leaves the offered hashes in the
  answer list, from slot `cnt` on.
-/
theorem ihaveLoop_spec
    (haschunks : ChunkList)
    (pkt : Packet)
    (k i cnt : Nat)
    (chunks : Nat → ChunkLine) :
    let out := ihaveLoop haschunks pkt k i cnt chunks
    let offered :=
      offeredHashes haschunks
        ((List.range' i k).map pkt.getHash)
    out.1 = cnt + offered.length ∧
      (∀ j, j < cnt → out.2 j = chunks j) ∧
      (List.range' cnt offered.length).map
          (fun j => (out.2 j).sha1) =
        offered := by
  induction k generalizing i cnt chunks with
  | zero => exact ⟨rfl, fun _ _ => rfl, rfl⟩
  | succ k ih =>
      dsimp only
      rw [List.range'_succ, List.map_cons]
      let next :=
        Function.update chunks cnt
          { chunks cnt with sha1 := pkt.getHash i }
      have hNext : (next cnt).sha1 = pkt.getHash i := by
        simp [next]
      have hBelow : ∀ j, j < cnt → next j = chunks j :=
        fun j hj =>
          Function.update_of_ne (Nat.ne_of_lt hj) _ _
      by_cases hHas :
          (hash2Index haschunks (pkt.getHash i)).isSome = true
      · have hLoop :
            ihaveLoop haschunks pkt (k + 1) i cnt chunks =
              ihaveLoop haschunks pkt k (i + 1) (cnt + 1)
                next := by
          rw [ihaveLoop]
          exact if_pos hHas
        rcases ih (i + 1) (cnt + 1) next with
          ⟨hCount, hKept, hHashes⟩
        rw [offeredHashes_cons_has hHas, hLoop]
        refine ⟨?_, ?_, ?_⟩
        · rw [hCount, List.length_cons]
          omega
        · intro j hj
          rw [hKept j (Nat.lt_succ_of_lt hj)]
          exact hBelow j hj
        · rw [List.length_cons, List.range'_succ,
            List.map_cons, hHashes,
            hKept cnt (Nat.lt_succ_self cnt), hNext]
      · have hLoop :
            ihaveLoop haschunks pkt (k + 1) i cnt chunks =
              ihaveLoop haschunks pkt k (i + 1) cnt next := by
          rw [ihaveLoop]
          exact if_neg hHas
        rcases ih (i + 1) cnt next with
          ⟨hCount, hKept, hHashes⟩
        rw [offeredHashes_cons_lacks hHas, hLoop]
        refine ⟨hCount, ?_, hHashes⟩
        intro j hj
        rw [hKept j hj]
        exact hBelow j hj

/- What the loop of `send_ihave` makes of a WHOHAS. -/
theorem ihaveLoop_answer
    (s : PeerServer)
    {hashes : List CString}
    {pkt : Packet}
    (hCarries : CarriesHashes .whohas hashes pkt) :
    let offered :=
      offeredHashes s.haschunks (hashes.map spelled)
    let out :=
      ihaveLoop s.haschunks pkt pkt.getChunkCnt 0 0
        s.ihavechunks.chunks
    out.1 = offered.length ∧
      (List.range offered.length).map
          (fun j => (out.2 j).sha1) =
        offered := by
  have hRead :
      (List.range' 0 pkt.getChunkCnt).map pkt.getHash =
        hashes.map spelled := by
    rw [← List.range_eq_range']
    exact hCarries.hashes_eq (by simp)
  have hLoop :=
    ihaveLoop_spec s.haschunks pkt pkt.getChunkCnt 0 0
      s.ihavechunks.chunks
  simp only [hRead, Nat.zero_add] at hLoop
  refine ⟨hLoop.1, ?_⟩
  rw [List.range_eq_range']
  exact hLoop.2.2

/- The answer list holds the offered hashes, if any. -/
theorem ihaveAnswer_hashes
    (s : PeerServer)
    {hashes : List CString}
    {pkt : Packet}
    (hCarries : CarriesHashes .whohas hashes pkt)
    (hSome :
      offeredHashes s.haschunks (hashes.map spelled) ≠ []) :
    (ihaveAnswer s pkt).hashes =
      offeredHashes s.haschunks (hashes.map spelled) := by
  rcases ihaveLoop_answer s hCarries with ⟨hCount, hHashes⟩
  have hPos := List.length_pos_iff.mpr hSome
  have hLength :
      (ihaveAnswer s pkt).count =
        (offeredHashes s.haschunks
          (hashes.map spelled)).length := by
    rw [ihaveAnswer]
    dsimp only
    rw [if_neg (by omega)]
    exact hCount
  rw [ChunkList.hashes, hLength]
  exact hHashes

/-
  `send_ihave` answers a WHOHAS with one packet that carries
  the hashes it has, or with nothing.
-/
theorem sendIhave_answer
    (env : Env)
    (s : PeerServer)
    {hashes : List CString}
    {pkt : Packet}
    (hCarries : CarriesHashes .whohas hashes pkt)
    (p : Nat) :
    let offered :=
      offeredHashes s.haschunks (hashes.map spelled)
    (offered = [] →
        (sendIhave env s pkt p).sent = s.sent) ∧
      (offered ≠ [] →
        ∃ answer,
          (sendIhave env s pkt p).sent =
              s.sent ++ [⟨p, answer⟩] ∧
            CarriesHashes .ihave offered answer) := by
  intro offered
  have hCount := (ihaveLoop_answer s hCarries).1
  constructor
  · intro hNone
    have hZero := hCount.trans (congrArg List.length hNone)
    rw [List.length_nil] at hZero
    unfold sendIhave
    rw [if_pos hZero]
  · intro hSome
    have hPos := List.length_pos_iff.mpr hSome
    have hFew : offered.length ≤ hashNumPkt := by
      calc
        offered.length ≤ (hashes.map spelled).length :=
          List.length_filter_le _ _
        _ = hashes.length := List.length_map _
        _ ≤ hashNumPkt := hCarries.few
    let list := ihaveAnswer s pkt
    have hHashes : list.hashes = offered :=
      ihaveAnswer_hashes s hCarries hSome
    have hLength : list.count = offered.length := by
      rw [← hHashes, ChunkList.hashes, List.length_map,
        List.length_range]
    have hChunks :
        (ihaveParam list p).chunkCount list = list.count :=
      rfl
    rcases @buildPackets_one s.getchunks list
        (ihaveParam list p) (Or.inr rfl) rfl
        (Int.natCast_nonneg p) (Int.le_refl 0) env.stack
        (by rw [hChunks, hLength]; exact hPos)
        (by rw [hChunks, hLength]; exact hFew) with
      ⟨answer, hBuild, hAnswer⟩
    rw [hChunks, selectedHashes_ihave, hHashes] at hAnswer
    refine ⟨answer, ?_, hAnswer⟩
    unfold sendIhave
    rw [if_neg (by rw [hCount]; exact Nat.ne_of_gt hPos)]
    simp only [PeerServer.send, sendPacket]
    change
      s.sent ++
          (buildPackets s.getchunks env.stack
            (ihaveParam list p)).flatMap _ = _
    rw [hBuild]
    rfl

end BtPeer

------------------------------------------------------------
-- The Request
------------------------------------------------------------

namespace BtPeer

/-
  The loop of `parse_download` queues the hashes in order,
  when no allocation fails.
-/
theorem parseDownloadLoop_iff
    {env : Env}
    {pkt : Packet}
    (k i : Nat)
    {dq dq' : List CString} :
    parseDownloadLoop env pkt k i dq = some dq' ↔
      (∀ j, i ≤ j → j < i + k → env.mallocOk j = true) ∧
        dq' = dq ++ (List.range' i k).map pkt.getHash := by
  induction k generalizing i dq with
  | zero =>
      simp only [parseDownloadLoop, List.range'_zero,
        List.map_nil, List.append_nil, Option.some.injEq]
      constructor
      · intro hSame
        exact ⟨fun j hLow hHigh => by omega, hSame.symm⟩
      · rintro ⟨_, hSame⟩
        exact hSame.symm
  | succ k ih =>
      unfold parseDownloadLoop
      by_cases hMalloc : env.mallocOk i = true
      · rw [if_pos hMalloc, ih (i + 1), List.range'_succ,
          List.map_cons, List.append_assoc]
        apply and_congr _ Iff.rfl
        constructor
        · intro hRest j hLow hHigh
          by_cases hFirst : j = i
          · rw [hFirst]
            exact hMalloc
          · exact hRest j (by omega) (by omega)
        · intro hAll j hLow hHigh
          exact hAll j (by omega) (by omega)
      · rw [if_neg hMalloc]
        constructor
        · intro hNone
          cases hNone
        · rintro ⟨hAll, _⟩
          exact absurd (hAll i (Nat.le_refl i) (by omega))
            hMalloc

/- No allocation of `parse_download` fails. -/
def Allocates
    (env : Env)
    (pkt : Packet) : Prop :=
  ∀ i, i < pkt.getChunkCnt → env.mallocOk i = true

theorem parseDownloadLoop_hashes_iff
    {env : Env}
    {pkt : Packet}
    {dq : List CString} :
    parseDownloadLoop env pkt pkt.getChunkCnt 0 [] = some dq ↔
      Allocates env pkt ∧ dq = pkt.hashes := by
  rw [parseDownloadLoop_iff, ← List.range_eq_range',
    List.nil_append, Nat.zero_add]
  apply and_congr _ Iff.rfl
  constructor
  · intro hAll i hi
    exact hAll i (Nat.zero_le i) hi
  · intro hAll i _ hi
    exact hAll i hi

/- After `parse_download` the queue is that of the packet. -/
theorem parseDownload_spec
    {env : Env}
    {s s₁ : PeerServer}
    {pkt : Packet}
    {q : Nat}
    (hParse : parseDownload env s pkt q = (s₁, true)) :
    s₁ =
      s.setPeer q
        { s.peer q with hasqueue := pkt.hashes } := by
  unfold parseDownload at hParse
  cases hLoop :
      parseDownloadLoop env pkt pkt.getChunkCnt 0 [] with
  | none =>
      rw [hLoop] at hParse
      cases hParse
  | some dq =>
      rw [hLoop] at hParse
      cases hParse
      rw [(parseDownloadLoop_hashes_iff.mp hLoop).2]

/- What `find_unfetched_chunk` changes and returns. -/
theorem findUnfetchedChunk_spec
    {s s₂ : PeerServer}
    {q i : Nat}
    (hFind : findUnfetchedChunk s q = (s₂, some i)) :
    s₂.getchunks = s.getchunks ∧
      i < s.getchunks.count ∧
      (s.getchunks.chunks i).sha1 ∈ (s.peer q).hasqueue := by
  unfold findUnfetchedChunk at hFind
  cases hSearch :
      searchQueue s.getchunks (s.peer q).hasqueue with
  | none =>
      rw [hSearch] at hFind
      cases hFind
  | some found =>
      rcases found with ⟨j, dq⟩
      rw [hSearch] at hFind
      cases hFind
      rcases searchQueue_spec hSearch with ⟨hLt, _, hMem⟩
      exact ⟨rfl, hLt, hMem⟩

/- `send_get` sends one packet, with the hash of its chunk. -/
theorem sendGet_carries
    (env : Env)
    (s : PeerServer)
    (q i : Nat) :
    ∃ get,
      (sendGet env s q i).sent = s.sent ++ [⟨q, get⟩] ∧
        CarriesHashes .get [(s.getchunks.chunks i).sha1]
          get := by
  rcases getPackets_carry (s.getchunks.setState i .fetching)
      q i env.stack with ⟨get, hBuild, hCarries⟩
  rw [ChunkList.setState_sha1] at hCarries
  refine ⟨get, ?_, hCarries⟩
  unfold sendGet
  simp only [PeerServer.send, sendPacket, PeerServer.setState]
  rw [hBuild]
  rfl

end BtPeer

------------------------------------------------------------
-- Hashes As Strings And As Bytes
------------------------------------------------------------

namespace BtPeer

/- Every hash of the list is a string of `binary2hex`. -/
def ChunkList.HashStrings (cl : ChunkList) : Prop :=
  ∀ i, i < cl.count → IsHashString (cl.chunks i).sha1

theorem hashBytes_spelled
    (hash : CString) :
    hashBytes (spelled hash) = hashBytes hash := by
  apply ByteMemory.block_congr
  intro i hi
  rw [Nat.zero_add]
  exact hex2binary_binary2hex (hex2binary hash) hi

/- Two hashes with the same bytes are spelled the same. -/
theorem spelled_eq_iff
    (hash hash' : CString) :
    spelled hash = spelled hash' ↔
      hashBytes hash = hashBytes hash' := by
  constructor
  · intro hSpelled
    rw [← hashBytes_spelled hash, hSpelled,
      hashBytes_spelled]
  · intro hBytes
    apply spelled_congr
    intro i hi
    have hByte := ByteMemory.block_cells hBytes hi
    rwa [Nat.zero_add] at hByte

theorem hash2Index_isSome_iff
    (cl : ChunkList)
    (hash : CString) :
    (hash2Index cl hash).isSome = true ↔
      hash ∈ cl.hashes := by
  simp only [hash2Index, List.find?_isSome,
    decide_eq_true_eq, ChunkList.hashes, List.mem_map]

/- A list has a spelled hash when it has its bytes. -/
theorem ChunkList.HashStrings.mem_bytes_iff
    {cl : ChunkList}
    (hStrings : cl.HashStrings)
    (hash : CString) :
    hashBytes hash ∈ cl.hashes.map hashBytes ↔
      (hash2Index cl (spelled hash)).isSome = true := by
  rw [hash2Index_isSome_iff]
  constructor
  · intro hMem
    rcases List.mem_map.mp hMem with ⟨has, hHas, hBytes⟩
    have hSpelled := (spelled_eq_iff hash has).mpr hBytes.symm
    have hString : IsHashString has := by
      rcases List.mem_map.mp hHas with ⟨i, hi, rfl⟩
      exact hStrings i (List.mem_range.mp hi)
    rw [hSpelled, hString.spelled_eq]
    exact hHas
  · intro hMem
    rw [← hashBytes_spelled]
    exact List.mem_map_of_mem hMem

/- The offered hashes are those whose bytes the list has. -/
theorem offeredHashes_bytes
    {cl : ChunkList}
    (hStrings : cl.HashStrings)
    (hashes : List CString) :
    (offeredHashes cl (hashes.map spelled)).map hashBytes =
      (hashes.map hashBytes).filter
        (fun bytes => bytes ∈ cl.hashes.map hashBytes) := by
  induction hashes with
  | nil => rfl
  | cons hash hashes ih =>
      have hSame := hStrings.mem_bytes_iff hash
      rw [List.map_cons, List.map_cons]
      by_cases hHas :
          (hash2Index cl (spelled hash)).isSome = true
      · have hMem := hSame.mpr hHas
        rw [offeredHashes_cons_has hHas, List.filter_cons,
          if_pos (decide_eq_true hMem), List.map_cons, ih,
          hashBytes_spelled]
      · have hNot := mt hSame.mp hHas
        rw [offeredHashes_cons_lacks hHas, List.filter_cons,
          if_neg (by rw [decide_eq_true_eq]; exact hNot), ih]

end BtPeer

------------------------------------------------------------
-- The Whole Handshake
------------------------------------------------------------

namespace BtPeer

/- The groups of a packet that `haschunks` has, in order. -/
def offeredBytes
    (haschunks : ChunkList)
    (pkt : Packet) : List (List Byte) :=
  pkt.placedHashes.filter
    (fun bytes => bytes ∈ haschunks.hashes.map hashBytes)

/-
  Whatever chunk a server selects from the answer, the GET
  it sends names an entry of `haschunks` with that hash.
-/
def RequestsAgree
    (haschunks : ChunkList)
    (answer : Packet) : Prop :=
  ∀ (env : Env) (stale stale' : Nat → Byte)
    (b b₁ b₂ : PeerServer) (q i : Nat),
    parseDownload env b (received answer stale) q =
        (b₁, true) →
      findUnfetchedChunk b₁ q = (b₂, some i) →
        let b₃ := sendGet env b₂ q i
        i < b₃.getchunks.count ∧
          (b₃.getchunks.chunks i).state = .fetching ∧
          ∃ get j,
            b₃.sent = b₂.sent ++ [⟨q, get⟩] ∧
              hash2Index haschunks
                  ((received get stale').getHash 0) =
                some j ∧
              j < haschunks.count ∧
              hashBytes (b₃.getchunks.chunks i).sha1 =
                hashBytes (haschunks.chunks j).sha1

theorem hash2Index_sha1
    {cl : ChunkList}
    {hash : CString}
    {j : Nat}
    (hFound : hash2Index cl hash = some j) :
    (cl.chunks j).sha1 = hash := by
  unfold hash2Index at hFound
  have hTest := List.find?_some hFound
  exact of_decide_eq_true hTest

theorem requests_agree
    {haschunks : ChunkList}
    {asked : List CString}
    {answer : Packet}
    (hCarries :
      CarriesHashes .ihave
        (offeredHashes haschunks (asked.map spelled))
        answer) :
    RequestsAgree haschunks answer := by
  intro env stale stale' b b₁ b₂ q i hParse hFind b₃
  have hArrived := hCarries.received stale
  have hQueue := hArrived.hashes_eq (by simp)
  rw [parseDownload_spec hParse, hQueue] at hFind
  rcases findUnfetchedChunk_spec hFind with
    ⟨hKept, hLt, hMem⟩
  let hash := (b₃.getchunks.chunks i).sha1
  have hList : b₃.getchunks = b.getchunks.setState i .fetching :=
    congrArg (fun cl => ChunkList.setState cl i .fetching)
      hKept
  have hHash : hash = (b.getchunks.chunks i).sha1 := by
    dsimp only [hash]
    rw [hList, ChunkList.setState_sha1]
  -- The selected hash is one that the answer offers.
  have hOffered :
      ∃ offer ∈ offeredHashes haschunks (asked.map spelled),
        spelled offer = hash := by
    rw [hHash]
    rw [PeerServer.setPeer_peer, if_pos rfl] at hMem
    exact List.mem_map.mp hMem
  rcases hOffered with ⟨offer, hOffer, hSpelled⟩
  rcases List.mem_filter.mp hOffer with ⟨hAsked, hHas⟩
  have hString : IsHashString offer := by
    rcases List.mem_map.mp hAsked with ⟨ask, _, rfl⟩
    exact isHashString_spelled ask
  have hSame : offer = hash := by
    rw [← hSpelled, hString.spelled_eq]
  rcases Option.isSome_iff_exists.mp hHas with ⟨j, hFound⟩
  rcases sendGet_carries env b₂ q i with
    ⟨get, hSent, hGet⟩
  have hRequested : (b₂.getchunks.chunks i).sha1 = hash := by
    rw [hKept, hHash]
    rfl
  have hRead : (received get stale').getHash 0 = offer := by
    rw [(hGet.received stale').getHash_eq (by simp),
      List.getElem_singleton, hRequested, ← hSame,
      hString.spelled_eq]
  refine ⟨?_, ?_, get, j, hSent, ?_, hash2Index_lt hFound, ?_⟩
  · rw [hList]
    exact hLt
  · rw [hList, ChunkList.setState_state, if_pos rfl]
  · rw [hRead]
    exact hFound
  · change hashBytes hash = _
    rw [hash2Index_sha1 hFound, hSame]

/-
  A peer answers each WHOHAS packet with the hashes of it
  that it has, in order, and with nothing when it has none;
  what is then requested is what was offered.
-/
theorem discovery_handshake
    {a b : PeerServer}
    (hStrings : a.haschunks.HashStrings)
    {stack : Nat → Byte}
    {ask : Datagram}
    (hAsk :
      ask ∈
        sendPacket b.getchunks b.peerlist.count stack
          (whohasParam b.getchunks))
    (env : Env)
    (stale : Nat → Byte)
    (p : Nat) :
    let whohas := received ask.pkt stale
    let offered := offeredBytes a.haschunks whohas
    let a' := sendIhave env a whohas p
    (offered = [] → a'.sent = a.sent) ∧
      (offered ≠ [] →
        ∃ answer,
          a'.sent = a.sent ++ [⟨p, answer⟩] ∧
            answer.type = PacketType.ihave.code ∧
            answer.placedHashes = offered ∧
            RequestsAgree a.haschunks answer) := by
  intro whohas offered a'
  rcases List.mem_flatMap.mp hAsk with ⟨pkt, hPkt, hSent⟩
  rcases List.mem_map.mp hSent with ⟨dest, _, rfl⟩
  rcases (@mem_buildPackets b.getchunks b.getchunks
      (whohasParam b.getchunks) (Or.inl rfl) rfl
      (Int.le_refl 0) (Int.le_refl 0) stack).1 pkt hPkt with
    ⟨m, _, hCarries⟩
  have hArrived := hCarries.received stale
  rcases sendIhave_answer env a hArrived p with
    ⟨hNone, hSome⟩
  have hOffered :=
    offeredHashes_bytes hStrings
      (sliceHashes b.getchunks b.getchunks
        (whohasParam b.getchunks) m)
  rw [← hArrived.placedHashes_eq (by simp [whohasParam])]
    at hOffered
  change _ = offered at hOffered
  rw [← hOffered]
  refine ⟨fun hNil => hNone (List.map_eq_nil_iff.mp hNil), ?_⟩
  intro hNil
  rcases hSome (fun h => hNil (List.map_eq_nil_iff.mpr h)) with
    ⟨answer, hAnswer, hAnswers⟩
  exact
    ⟨answer, hAnswer, hAnswers.type,
      hAnswers.placedHashes_eq (by simp),
      requests_agree hAnswers⟩

/- Its hypotheses hold when the one chunk is asked for. -/
theorem discovery_handshake_one_chunk :
    ∃ ask ∈
        sendPacket oneChunk 1 sampleEnv.stack
          (whohasParam oneChunk),
      ∃ answer,
        (sendIhave sampleEnv sampleServer
            (received ask.pkt sampleEnv.stack) 0).sent =
            [⟨0, answer⟩] ∧
          answer.placedHashes = [hashBytes zeroHash] ∧
          RequestsAgree oneChunk answer := by
  rcases @buildPackets_one oneChunk oneChunk
      (whohasParam oneChunk) (Or.inl rfl) rfl
      (Int.le_refl 0) (Int.le_refl 0) sampleEnv.stack
      (by decide) (by decide) with ⟨pkt, hBuild, hCarries⟩
  have hAsk :
      (⟨0, pkt⟩ : Datagram) ∈
        sendPacket oneChunk 1 sampleEnv.stack
          (whohasParam oneChunk) := by
    rw [sendPacket, hBuild, List.flatMap_singleton]
    exact List.mem_singleton.mpr rfl
  have hStrings : sampleServer.haschunks.HashStrings :=
    fun i _ => ⟨fun _ => 0, rfl⟩
  have hOffered :
      offeredBytes oneChunk
          (received pkt sampleEnv.stack) =
        [hashBytes zeroHash] := by
    rw [offeredBytes,
      (hCarries.received sampleEnv.stack).placedHashes_eq
        (by simp [whohasParam])]
    decide +kernel
  rcases (discovery_handshake
      (b := { sampleServer with getchunks := oneChunk })
      hStrings hAsk sampleEnv sampleEnv.stack 0).2
      (by
        change offeredBytes oneChunk _ ≠ []
        rw [hOffered]
        simp) with ⟨answer, hSent, _, hPlaced, hAgree⟩
  refine ⟨⟨0, pkt⟩, hAsk, answer, hSent, ?_, hAgree⟩
  rw [hPlaced]
  exact hOffered

end BtPeer
