import BtPeer.Packet.HashPacket
import BtPeer.Packet.Wire

/-
  What is decoded from the packets of one `send_packet` call:
  the fields as they were set, and the hashes or the payload.

  Key definitions include:
    * `LowerHex`
    * `WellFormedCall`
    * `RestoredHeader`
    * `RestoredBody`

  Key theorems include:
    * `lowerHex_iff`
    * `hashPackets_carry`
    * `CarriesHashes.decoded`
    * `sendPacket_roundTrip`
-/

------------------------------------------------------------
-- Hashes In Lower Case
------------------------------------------------------------

namespace BtPeer

/- The 16 digits that `binary2hex` writes. -/
def lowerDigits : List Char :=
  ['0', '1', '2', '3', '4', '5', '6', '7', '8', '9',
    'a', 'b', 'c', 'd', 'e', 'f']

/- A string of 40 lower-case hex digits. -/
structure LowerHex
    (hash : CString) : Prop where
  length : hash.length = sha1HashStrSize
  digits : ∀ c ∈ hash, c ∈ lowerDigits

theorem mem_lowerDigits_digitChar :
    ∀ n, n < 16 → Nat.digitChar n ∈ lowerDigits := by
  decide

/- The value of a digit, spelled again. -/
theorem lowerDigit_value :
    ∀ c ∈ lowerDigits,
      ∃ n, n < 16 ∧ c = Nat.digitChar n ∧
        hexDigit2binary c = BitVec.ofNat 8 n := by
  have hDigits :
      lowerDigits = (List.range 16).map Nat.digitChar := by
    decide
  intro c hc
  rw [hDigits] at hc
  rcases List.mem_map.mp hc with ⟨n, hn, rfl⟩
  have hLt := List.mem_range.mp hn
  exact ⟨n, hLt, rfl, hexDigit2binary_digitChar n hLt⟩

/- Two digits joined to a byte are its two halves. -/
theorem byte_halves :
    ∀ m, m < 16 → ∀ n, n < 16 →
      (BitVec.ofNat 8 m <<< 4 ||| BitVec.ofNat 8 n).toNat /
          16 = m ∧
        (BitVec.ofNat 8 m <<< 4 ||| BitVec.ofNat 8 n).toNat %
          16 = n := by
  decide

theorem charAt_mem
    {s : CString}
    {i : Nat}
    (hi : i < s.length) :
    charAt s i ∈ s := by
  rw [charAt, List.getD_eq_getElem _ _ hi]
  exact List.getElem_mem hi

/- The digits are read as bytes and spelled again. -/
theorem LowerHex.spelled_eq
    {hash : CString}
    (hLower : LowerHex hash) :
    spelled hash = hash := by
  have hLength := hLower.length
  have hSpelled :=
    binary2hex_length (hex2binary hash) sha1HashSize
  simp only [sha1HashStrSize_eq, sha1HashSize_eq]
    at hLength hSpelled
  have hPair :
      ∀ i, i < sha1HashSize →
        charAt (spelled hash) (2 * i) = charAt hash (2 * i) ∧
          charAt (spelled hash) (2 * i + 1) =
            charAt hash (2 * i + 1) := by
    intro i hi
    rcases charAt_binary2hex (hex2binary hash) hi with
      ⟨hHigh, hLow⟩
    simp only [sha1HashSize_eq] at hi
    rcases lowerDigit_value _
        (hLower.digits _
          (charAt_mem (by omega : 2 * i < hash.length)))
      with ⟨m, hm, hFirst, hFirstValue⟩
    rcases lowerDigit_value _
        (hLower.digits _
          (charAt_mem (by omega : 2 * i + 1 < hash.length)))
      with ⟨n, hn, hSecond, hSecondValue⟩
    rcases byte_halves m hm n hn with ⟨hDiv, hMod⟩
    unfold spelled
    rw [hHigh, hLow, hex2binary, hFirstValue, hSecondValue,
      hDiv, hMod, hFirst, hSecond]
    exact ⟨rfl, rfl⟩
  apply List.ext_getElem
  · rw [hLength]
    exact hSpelled
  · intro i hi hi'
    have hAt :
        charAt (spelled hash) i = charAt hash i := by
      have hHalf : i / 2 < sha1HashSize := by
        simp only [sha1HashSize_eq]
        omega
      rcases hPair (i / 2) hHalf with ⟨hEven, hOdd⟩
      rcases Nat.mod_two_eq_zero_or_one i with hMod | hMod
      · have hIndex : 2 * (i / 2) = i := by omega
        rwa [hIndex] at hEven
      · have hIndex : 2 * (i / 2) + 1 = i := by omega
        rwa [hIndex] at hOdd
    rwa [charAt, charAt, List.getD_eq_getElem _ _ hi,
      List.getD_eq_getElem _ _ hi'] at hAt

/- These are the strings that digests are compared with. -/
theorem lowerHex_iff
    (hash : CString) :
    LowerHex hash ↔ IsHashString hash := by
  constructor
  · intro hLower
    exact ⟨hex2binary hash, hLower.spelled_eq.symm⟩
  · rintro ⟨buf, rfl⟩
    refine ⟨binary2hex_length buf sha1HashSize, ?_⟩
    intro c hMem
    rw [binary2hex, List.mem_flatMap] at hMem
    rcases hMem with ⟨i, _, hDigit⟩
    have hLt := (buf i).isLt
    simp only [List.mem_cons, List.not_mem_nil,
      or_false] at hDigit
    rcases hDigit with rfl | rfl
    · exact mem_lowerDigits_digitChar _ (by omega)
    · exact mem_lowerDigits_digitChar _ (by omega)

end BtPeer

------------------------------------------------------------
-- Decoding A Packet With Hashes
------------------------------------------------------------

namespace BtPeer

/- A packet as it is decoded from its own bytes. -/
def decoded
    (stale : Nat → Byte)
    (pkt : Packet) : Packet :=
  decodePkt (encodePkt pkt) stale pkt.pktLen.toNat

/- Decoding keeps what a packet carries. -/
theorem CarriesHashes.decoded
    {t : PacketType}
    {hashes : List CString}
    {pkt : Packet}
    (hCarries : CarriesHashes t hashes pkt)
    (stale : Nat → Byte) :
    CarriesHashes t hashes (decoded stale pkt) := by
  have hLen := hCarries.pktLen
  have hHeaderFits : headerSize ≤ pkt.pktLen.toNat := by
    omega
  have hAlike : Alike pkt (BtPeer.decoded stale pkt) :=
    decodePkt_encodePkt hHeaderFits stale
  have hHeader := hAlike.header
  refine
    { magic := ?_
      version := ?_
      type := ?_
      hdrLen := ?_
      pktLen := ?_
      few := hCarries.few
      count := ?_
      groups := ?_ }
  · rw [hHeader]
    exact hCarries.magic
  · rw [hHeader]
    exact hCarries.version
  · rw [hHeader]
    exact hCarries.type
  · rw [hHeader]
    exact hCarries.hdrLen
  · rw [hHeader]
    exact hLen
  · intro hNotGet
    have hFour : countBytes t = 4 := if_neg hNotGet
    rw [← hAlike.payload 0 (by omega)]
    exact hCarries.count hNotGet
  · rw [← hCarries.groups]
    apply List.map_congr_left
    intro n hn
    apply ByteMemory.block_congr
    intro i hi
    have hIndex := List.mem_range.mp hn
    refine (hAlike.payload _ ?_).symm
    rw [hLen]
    simp only [sha1HashSize_eq] at hi ⊢
    omega

/- The hashes that are decoded, spelled as they were. -/
theorem CarriesHashes.restored
    {t : PacketType}
    {hashes : List CString}
    {pkt : Packet}
    (hCarries : CarriesHashes t hashes pkt)
    (hLower : ∀ hash ∈ hashes, LowerHex hash)
    (stale : Nat → Byte)
    {n : Nat}
    (hn : n < hashes.length) :
    (BtPeer.decoded stale pkt).getHash n = hashes[n] := by
  rw [(hCarries.decoded stale).getHash_eq hn]
  exact (hLower _ (List.getElem_mem hn)).spelled_eq

end BtPeer

------------------------------------------------------------
-- The Packets Of One Call, By Position
------------------------------------------------------------

namespace BtPeer

variable {getchunks c : ChunkList}
variable {pp : PktParam}

/- A packet with hashes carries no number. -/
theorem hashPacket_numbers
    (hSeq : pp.type ≠ .data)
    (hAck : pp.type ≠ .ack)
    (j limit : Nat)
    (pkt : Packet) :
    (hashPacket getchunks c pp j limit pkt).seq = 0 ∧
      (hashPacket getchunks c pp j limit pkt).ack = 0 := by
  have hHeader :=
    @addHashes_header getchunks c pp (limit - j) j 0
      (setHeader pp pkt)
  have hSeqField := congrArg Packet.seq hHeader
  have hAckField := congrArg Packet.ack hHeader
  have hSeqZero : (setHeader pp pkt).seq = 0 := if_neg hSeq
  have hAckZero : (setHeader pp pkt).ack = 0 := if_neg hAck
  unfold hashPacket
  by_cases hGet : pp.type = .get
  · rw [if_pos hGet]
    exact ⟨hSeqField.trans hSeqZero, hAckField.trans hAckZero⟩
  · rw [if_neg hGet]
    exact ⟨hSeqField.trans hSeqZero, hAckField.trans hAckZero⟩

/- Packet `m` from packet `i` on carries slice `i + m`. -/
theorem hashPackets_carry
    (hType : pp.type = .whohas ∨ pp.type = .ihave)
    {k i m : Nat}
    {pkt out : Packet}
    (hAt :
      (hashPackets getchunks c pp k i
        (min (pp.chunkCount c) (hashNumPkt * i)) pkt)[m]? =
          some out) :
    CarriesHashes pp.type
        (sliceHashes getchunks c pp (i + m)) out ∧
      out.seq = 0 ∧ out.ack = 0 := by
  induction k generalizing i m pkt with
  | zero => simp [hashPackets] at hAt
  | succ k ih =>
      have hCursor :
          max (min (pp.chunkCount c) (hashNumPkt * i))
              (min (pp.chunkCount c) (hashNumPkt * (i + 1))) =
            min (pp.chunkCount c) (hashNumPkt * (i + 1)) := by
        simp only [hashNumPkt_eq]
        omega
      have hRoom :
          min (pp.chunkCount c) (hashNumPkt * (i + 1)) -
              min (pp.chunkCount c) (hashNumPkt * i) ≤
            hashNumPkt := by
        simp only [hashNumPkt_eq]
        omega
      simp only [hashPackets, hCursor] at hAt
      cases m with
      | zero =>
          rw [List.getElem?_cons_zero, Option.some.injEq] at hAt
          rw [← hAt]
          refine ⟨hashPacket_carries hType hRoom pkt, ?_⟩
          apply hashPacket_numbers
          · rcases hType with h | h <;> simp [h]
          · rcases hType with h | h <;> simp [h]
      | succ m =>
          rw [List.getElem?_cons_succ] at hAt
          have hLater := ih hAt
          rwa [Nat.add_assoc, Nat.add_comm 1 m] at hLater

/- A GET for one chunk carries its hash. -/
theorem hashPackets_get
    (hType : pp.type = .get)
    (hOne : pp.chunkCount c = 1)
    {m : Nat}
    {pkt out : Packet}
    (hAt :
      (hashPackets getchunks c pp (packetNum 1) 0 0 pkt)[m]? =
        some out) :
    CarriesHashes .get [(c.chunks pp.cIndex.toNat).sha1]
        out ∧
      out.seq = 0 ∧ out.ack = 0 := by
  have hNum : packetNum 1 = 1 := rfl
  have hLimit : min 1 (hashNumPkt * (0 + 1)) = 1 := rfl
  have hExt : (setHeader pp pkt).extHeaderSize = 0 := by
    simp [setHeader, Packet.extHeaderSize]
  have hCount : (setHeader pp pkt).countSize = 0 := by
    simp [setHeader, Packet.countSize, hType]
  have hBase : hashBase (setHeader pp pkt) = 0 := by
    simp only [hashBase, hExt, hCount]
    rfl
  have hBlock :=
    setHash_block (setHeader pp pkt) (Int.le_of_eq hExt.symm)
      0 (c.chunks pp.cIndex.toNat).sha1
  rw [hBase] at hBlock
  have hNumbers :=
    @hashPacket_numbers getchunks c pp (by simp [hType])
      (by simp [hType]) 0 1 pkt
  rw [hNum] at hAt
  simp only [hashPackets, hOne, hLimit] at hAt
  cases m with
  | zero =>
      rw [List.getElem?_cons_zero, Option.some.injEq] at hAt
      rw [← hAt]
      refine ⟨?_, hNumbers⟩
      have hPacket :
          hashPacket getchunks c pp 0 1 pkt =
            { (setHeader pp pkt).setHash 0
                (c.chunks pp.cIndex.toNat).sha1 with
              pktLen := BitVec.ofNat 16 36 } := by
        simp [hashPacket, addHashes, selected, hType]
      rw [hPacket]
      refine ⟨rfl, rfl, ?_, rfl, rfl, ?_,
        fun h => absurd rfl h, ?_⟩
      · exact congrArg PacketType.code hType
      · simp only [List.length_singleton, hashNumPkt_eq]
        omega
      · simp only [groups, List.length_singleton,
          List.range_one, List.map_cons, List.map_nil]
        exact congrArg (fun b => [b]) hBlock
  | succ m =>
      rw [List.getElem?_cons_succ] at hAt
      simp at hAt

end BtPeer

------------------------------------------------------------
-- Round Trips
------------------------------------------------------------

namespace BtPeer

/-
  A call of `send_packet` for a message of the protocol. The
  hashes of the chunks that it covers are digits in lower
  case, and a GET is for one chunk.
-/
structure WellFormedCall
    (pp : PktParam) : Prop where
  type : pp.type ≠ .denied
  lower :
    ∀ c, pp.c = some c → ∀ j, j < pp.chunkCount c →
      LowerHex (c.chunks (pp.cIndex.toNat + j)).sha1
  one :
    pp.type = .get → ∀ c, pp.c = some c → pp.chunkCount c = 1

/- The bytes behind the header of packet `m` of a call. -/
def bodyLength
    (getchunks : ChunkList)
    (pp : PktParam)
    (m : Nat) : Nat :=
  match pp.type, pp.c, pp.payload with
  | .whohas, some c, _ | .ihave, some c, _ =>
      4 + sha1HashSize * (sliceHashes getchunks c pp m).length
  | .get, some _, _ => sha1HashSize
  | .data, _, some _ => pp.payloadSize
  | _, _, _ => 0

/- The fields as `send_packet` sets them. -/
structure RestoredHeader
    (pp : PktParam)
    (len : Nat)
    (out : Packet) : Prop where
  magic : out.magic = magicNumber
  version : out.version = versionNumber
  type : out.type = pp.type.code
  hdrLen : out.hdrLen.toNat = headerSize
  pktLen : out.pktLen.toNat = headerSize + len
  seq : out.seq = if pp.type = .data then pp.seq else 0
  ack : out.ack = if pp.type = .ack then pp.ack else 0

/- What the accessors read from packet `m` of a call. -/
structure RestoredBody
    (getchunks : ChunkList)
    (pp : PktParam)
    (m : Nat)
    (out : Packet) : Prop where
  hashes :
    pp.type = .whohas ∨ pp.type = .ihave →
      ∀ c, pp.c = some c →
        out.getChunkCnt =
            (sliceHashes getchunks c pp m).length ∧
          out.hashes = sliceHashes getchunks c pp m
  get :
    pp.type = .get → ∀ c, pp.c = some c →
      out.getHash 0 = (c.chunks pp.cIndex.toNat).sha1
  data :
    pp.type = .data → ∀ payload, pp.payload = some payload →
      out.getDataLen = pp.payloadSize ∧
        ∀ i, i < pp.payloadSize → out.getData i = payload i

section

variable {getchunks c : ChunkList}
variable {pp : PktParam}

/- The hashes of a slice are among those of the call. -/
theorem mem_sliceHashes
    {m : Nat}
    {hash : CString}
    (hMem : hash ∈ sliceHashes getchunks c pp m) :
    ∃ j, j < pp.chunkCount c ∧
      hash = (c.chunks (pp.cIndex.toNat + j)).sha1 := by
  rw [sliceHashes, selectedHashes, List.mem_map] at hMem
  rcases hMem with ⟨j, hFilter, hHash⟩
  have hRange := List.mem_range'_1.mp
    (List.mem_of_mem_filter hFilter)
  exact ⟨j, by omega, hHash.symm⟩

/- The header of a packet with hashes. -/
theorem CarriesHashes.restoredHeader
    {hashes : List CString}
    {out : Packet}
    (hCarries : CarriesHashes pp.type hashes out)
    (hSeq : pp.type ≠ .data)
    (hAck : pp.type ≠ .ack)
    (hNumbers : out.seq = 0 ∧ out.ack = 0) :
    RestoredHeader pp
      (countBytes pp.type + sha1HashSize * hashes.length)
      out where
  magic := hCarries.magic
  version := hCarries.version
  type := hCarries.type
  hdrLen := hCarries.hdrLen
  pktLen := by
    rw [hCarries.pktLen, Nat.add_assoc]
  seq := by rw [hNumbers.1, if_neg hSeq]
  ack := by rw [hNumbers.2, if_neg hAck]

/- Decoding keeps the two numbers of a packet. -/
theorem decoded_header
    {pkt : Packet}
    (hHeader : headerSize ≤ pkt.pktLen.toNat)
    (stale : Nat → Byte) :
    decoded stale pkt =
      { pkt with payload := (decoded stale pkt).payload } :=
  (decodePkt_encodePkt hHeader stale).header

/- A WHOHAS or IHAVE with its list. -/
theorem hashCall_roundTrip
    (hCall : WellFormedCall pp)
    (hType : pp.type = .whohas ∨ pp.type = .ihave)
    (hList : pp.c = some c)
    {m : Nat}
    {pkt : Packet}
    (hCarries :
      CarriesHashes pp.type (sliceHashes getchunks c pp m) pkt)
    (hNumbers : pkt.seq = 0 ∧ pkt.ack = 0)
    (stale : Nat → Byte) :
    RestoredHeader pp (bodyLength getchunks pp m)
        (decoded stale pkt) ∧
      RestoredBody getchunks pp m (decoded stale pkt) := by
  have hNotGet : pp.type ≠ .get := by
    rcases hType with h | h <;> simp [h]
  have hNotData : pp.type ≠ .data := by
    rcases hType with h | h <;> simp [h]
  have hNotAck : pp.type ≠ .ack := by
    rcases hType with h | h <;> simp [h]
  have hLen := hCarries.pktLen
  have hFields := decoded_header
    (by omega : headerSize ≤ pkt.pktLen.toNat) stale
  have hOut := hCarries.decoded stale
  have hLower :
      ∀ hash ∈ sliceHashes getchunks c pp m,
        LowerHex hash := by
    intro hash hMem
    rcases mem_sliceHashes hMem with ⟨j, hj, rfl⟩
    exact hCall.lower c hList j hj
  constructor
  · have hBody :
        bodyLength getchunks pp m =
          countBytes pp.type +
            sha1HashSize *
              (sliceHashes getchunks c pp m).length := by
      rcases hType with h | h <;>
        simp [bodyLength, h, hList, countBytes]
    rw [hBody]
    apply hOut.restoredHeader hNotData hNotAck
    rw [hFields]
    exact hNumbers
  · refine
      { hashes := ?_
        get := fun hGet => absurd hGet hNotGet
        data := fun hData => absurd hData hNotData }
    intro _ c' hList'
    rw [hList, Option.some.injEq] at hList'
    rw [← hList']
    refine ⟨hOut.getChunkCnt_eq hNotGet, ?_⟩
    rw [hOut.hashes_eq hNotGet]
    refine (List.map_congr_left ?_).trans (List.map_id _)
    intro hash hMem
    exact (hLower hash hMem).spelled_eq

/- A GET for one chunk. -/
theorem getCall_roundTrip
    (hCall : WellFormedCall pp)
    (hType : pp.type = .get)
    (hList : pp.c = some c)
    {m : Nat}
    {pkt : Packet}
    (hCarries :
      CarriesHashes .get [(c.chunks pp.cIndex.toNat).sha1] pkt)
    (hNumbers : pkt.seq = 0 ∧ pkt.ack = 0)
    (stale : Nat → Byte) :
    RestoredHeader pp (bodyLength getchunks pp m)
        (decoded stale pkt) ∧
      RestoredBody getchunks pp m (decoded stale pkt) := by
  have hLen := hCarries.pktLen
  have hFields := decoded_header
    (by omega : headerSize ≤ pkt.pktLen.toNat) stale
  have hOut := hCarries.decoded stale
  have hLower :
      ∀ hash ∈ [(c.chunks pp.cIndex.toNat).sha1],
        LowerHex hash := by
    intro hash hMem
    rw [List.mem_singleton.mp hMem]
    have hOne := hCall.one hType c hList
    exact hCall.lower c hList 0 (by omega)
  constructor
  · have hBody :
        bodyLength getchunks pp m =
          countBytes pp.type +
            sha1HashSize *
              [(c.chunks pp.cIndex.toNat).sha1].length := by
      simp [bodyLength, hType, hList, countBytes]
    rw [← hType] at hOut
    rw [hBody]
    apply hOut.restoredHeader (by simp [hType])
      (by simp [hType])
    rw [hFields]
    exact hNumbers
  · refine
      { hashes := ?_
        get := ?_
        data := ?_ }
    · intro hOther
      rcases hOther with h | h <;> simp [hType] at h
    · intro _ c' hList'
      rw [hList, Option.some.injEq] at hList'
      rw [← hList']
      exact hCarries.restored hLower stale
        (by simp : 0 < [(c.chunks pp.cIndex.toNat).sha1].length)
    · intro hData
      simp [hType] at hData

/- A DATA packet with its payload. -/
theorem dataCall_roundTrip
    (hType : pp.type = .data)
    {payload : Nat → Byte}
    (hPayload : pp.payload = some payload)
    {m : Nat}
    {start pkt : Packet}
    (hAt : (plainPacket pp start)[m]? = some pkt)
    (stale : Nat → Byte) :
    RestoredHeader pp (bodyLength getchunks pp m)
        (decoded stale pkt) ∧
      RestoredBody getchunks pp m (decoded stale pkt) := by
  have hBody :
      bodyLength getchunks pp m = pp.payloadSize := by
    simp [bodyLength, hType, hPayload]
  by_cases hBig : maxPayloadSize < pp.payloadSize
  · simp only [plainPacket, hType, hPayload, if_pos hBig] at hAt
    cases hAt
  · have hPkt :
        pkt =
          { setHeader pp start with
            payload :=
              ByteMemory.memcpy start.payload 0 payload
                pp.payloadSize
            pktLen :=
              BitVec.ofNat 16
                (headerSize + pp.payloadSize) } := by
      have hMem := List.mem_of_getElem? hAt
      simp only [plainPacket, hType, hPayload,
        if_neg hBig] at hMem
      exact List.mem_singleton.mp hMem
    have hLen :
        pkt.pktLen.toNat = headerSize + pp.payloadSize := by
      rw [hPkt]
      simp only [maxPayloadSize_eq] at hBig
      simp only [headerSize_eq, BitVec.toNat_ofNat]
      omega
    have hAlike : Alike pkt (decoded stale pkt) :=
      decodePkt_encodePkt (by omega) stale
    have hFields := hAlike.header
    have hHdr : (decoded stale pkt).hdrLen.toNat = 16 := by
      rw [hFields, hPkt]
      rfl
    have hPktLen :
        (decoded stale pkt).pktLen.toNat =
          headerSize + pp.payloadSize := by
      rw [hFields]
      exact hLen
    constructor
    · rw [hBody]
      refine ⟨?_, ?_, ?_, hHdr, hPktLen, ?_, ?_⟩ <;>
        rw [hFields, hPkt] <;> rfl
    · refine
        { hashes := ?_
          get := ?_
          data := ?_ }
      · intro hOther
        rcases hOther with h | h <;> simp [hType] at h
      · intro hGet
        simp [hType] at hGet
      · intro _ payload' hPayload'
        rw [hPayload, Option.some.injEq] at hPayload'
        rw [← hPayload']
        have hDataLen :
            (decoded stale pkt).getDataLen =
              pp.payloadSize := by
          rw [Packet.getDataLen, hHdr, hPktLen]
          simp only [headerSize_eq]
          omega
        have hOffset : (decoded stale pkt).dataOffset = 0 := by
          simp only [Packet.dataOffset, Packet.maxOffset,
            Packet.extHeaderSize, hHdr, headerSize_eq]
          omega
        refine ⟨hDataLen, ?_⟩
        intro i hi
        have hByte := hAlike.payload i (by omega)
        have hCopied :=
          @ByteMemory.memcpy_inside _ start.payload payload 0
            pp.payloadSize i hi
        rw [Nat.zero_add] at hCopied
        rw [Packet.getData, hOffset, Int.toNat_zero,
          Nat.zero_add, ← hByte, hPkt]
        exact hCopied

/- A packet that is its header: an ACK, or nothing to add. -/
theorem headerCall_roundTrip
    (hNoList : pp.c = none ∨ pp.nondata = false)
    (hNoPayload : pp.type = .data → pp.payload = none)
    {m : Nat}
    {start pkt : Packet}
    (hAt : (plainPacket pp start)[m]? = some pkt)
    (stale : Nat → Byte) :
    RestoredHeader pp (bodyLength getchunks pp m)
        (decoded stale pkt) ∧
      RestoredBody getchunks pp m (decoded stale pkt) := by
  have hPkt : pkt = setHeader pp start := by
    have hMem := List.mem_of_getElem? hAt
    unfold plainPacket at hMem
    dsimp only at hMem
    split at hMem
    · rename_i hData hPayload
      rw [hNoPayload hData] at hPayload
      cases hPayload
    · exact List.mem_singleton.mp hMem
  have hListed :
      ∀ c, pp.c = some c →
        ¬ (pp.type = .whohas ∨ pp.type = .ihave ∨
          pp.type = .get) := by
    intro c hList hType
    rcases hNoList with hNone | hPlain
    · rw [hNone] at hList
      cases hList
    · rcases hType with h | h | h <;>
        simp [PktParam.nondata, h] at hPlain
  have hBody : bodyLength getchunks pp m = 0 := by
    unfold bodyLength
    split
    · rename_i hType hList
      exact absurd (.inl hType) (hListed _ hList)
    · rename_i hType hList
      exact absurd (.inr (.inl hType)) (hListed _ hList)
    · rename_i hType hList
      exact absurd (.inr (.inr hType)) (hListed _ hList)
    · rename_i hType hPayload
      rw [hNoPayload hType] at hPayload
      cases hPayload
    · rfl
  have hFields :=
    @decoded_header (setHeader pp start) (by
      change 16 ≤ 16
      omega) stale
  rw [hPkt]
  constructor
  · rw [hBody]
    constructor <;> rw [hFields] <;> rfl
  · constructor
    · intro hType c hList
      refine absurd ?_ (hListed c hList)
      rcases hType with h | h
      · exact .inl h
      · exact .inr (.inl h)
    · intro hType c hList
      exact absurd (.inr (.inr hType)) (hListed c hList)
    · intro hType payload hPayload
      rw [hNoPayload hType] at hPayload
      cases hPayload

end

end BtPeer

------------------------------------------------------------
-- Every Call
------------------------------------------------------------

namespace BtPeer

variable {getchunks c : ChunkList}
variable {pp : PktParam}

/- The two ways in which a call makes its packets. -/
theorem buildPackets_listed
    (hList : pp.c = some c)
    (hNondata : pp.nondata = true)
    {stack : Nat → Byte}
    {m : Nat}
    {pkt : Packet}
    (hSent :
      (buildPackets getchunks stack pp)[m]? = some pkt) :
    (hashPackets getchunks c pp
      (packetNum (pp.chunkCount c)) 0 0
      (stackPacket stack))[m]? = some pkt := by
  unfold buildPackets at hSent
  split at hSent
  · cases hSent
  · simpa only [hList, hNondata] using hSent

theorem buildPackets_plain
    (hNoList : pp.c = none ∨ pp.nondata = false)
    {stack : Nat → Byte}
    {m : Nat}
    {pkt : Packet}
    (hSent :
      (buildPackets getchunks stack pp)[m]? = some pkt) :
    (plainPacket pp (stackPacket stack))[m]? = some pkt := by
  unfold buildPackets at hSent
  split at hSent
  · cases hSent
  · split at hSent
    · rename_i hList hNondata
      rcases hNoList with hNone | hPlain
      · rw [hNone] at hList
        cases hList
      · rw [hPlain] at hNondata
        cases hNondata
    · exact hSent

/-
  Packet `m` of a call is decoded with the fields that
  `send_packet` set, and with the hashes or the payload that
  it placed.
-/
theorem sendPacket_roundTrip
    (hCall : WellFormedCall pp)
    (stack stale : Nat → Byte)
    {m : Nat}
    {pkt : Packet}
    (hSent :
      (buildPackets getchunks stack pp)[m]? = some pkt) :
    RestoredHeader pp (bodyLength getchunks pp m)
        (decoded stale pkt) ∧
      RestoredBody getchunks pp m (decoded stale pkt) := by
  by_cases hNoList : pp.c = none ∨ pp.nondata = false
  · have hPlain := buildPackets_plain hNoList hSent
    cases hPayload : pp.payload with
    | none =>
        exact headerCall_roundTrip hNoList
          (fun _ => hPayload) hPlain stale
    | some payload =>
        by_cases hData : pp.type = .data
        · exact dataCall_roundTrip hData hPayload hPlain stale
        · exact headerCall_roundTrip hNoList
            (fun hType => absurd hType hData) hPlain stale
  · rw [not_or, Bool.not_eq_false] at hNoList
    rcases hNoList with ⟨hSome, hNondata⟩
    rcases Option.ne_none_iff_exists'.mp hSome with ⟨c, hList⟩
    have hListed := buildPackets_listed hList hNondata hSent
    by_cases hGet : pp.type = .get
    · rw [hCall.one hGet c hList] at hListed
      have hCarries :=
        hashPackets_get hGet (hCall.one hGet c hList) hListed
      exact getCall_roundTrip hCall hGet hList hCarries.1
        hCarries.2 stale
    · have hType : pp.type = .whohas ∨ pp.type = .ihave := by
        have hKnown := hCall.type
        cases hKind : pp.type <;>
          simp [PktParam.nondata, hKind] at *
      have hCarries :=
        @hashPackets_carry getchunks c pp hType
          (packetNum (pp.chunkCount c)) 0 m
          (stackPacket stack) pkt
          (by rwa [Nat.mul_zero, Nat.min_zero])
      rw [Nat.zero_add] at hCarries
      exact hashCall_roundTrip hCall hType hList hCarries.1
        hCarries.2 stale

theorem one_le_maxChunkNum :
    1 ≤ maxChunkNum := by
  decide

/- A list with the hash whose bytes are all zero. -/
def zeroChunks : ChunkList where
  count := 1
  chunks := fun _ =>
    ⟨.unfetched, 0, binary2hex (fun _ => 0) sha1HashSize⟩
  count_le := one_le_maxChunkNum

/- A GET for its chunk is decoded with that hash. -/
theorem sendPacket_roundTrip_get :
    (decoded (fun _ => 9)
      { (setHeader (getParam zeroChunks 0 0)
            (stackPacket (fun _ => 0))).setHash 0
          (zeroChunks.chunks 0).sha1 with
        pktLen := BitVec.ofNat 16 36 }).getHash 0 =
      (zeroChunks.chunks 0).sha1 := by
  have hCall : WellFormedCall (getParam zeroChunks 0 0) := by
    constructor
    · decide
    · intro c hList j _
      rw [getParam, Option.some.injEq] at hList
      rw [← hList]
      exact (lowerHex_iff _).mpr ⟨fun _ => 0, rfl⟩
    · intro _ c _
      rfl
  have hSent :=
    congrArg (fun pkts => pkts[0]?)
      (getPackets_eq zeroChunks 0 0 (fun _ => 0))
  have hTrip :=
    sendPacket_roundTrip hCall (fun _ => 0) (fun _ => 9) hSent
  exact hTrip.2.get rfl zeroChunks rfl

end BtPeer
