import BtPeer.Packet.ExtHeader

/-
  Packets as bytes (`DECODE_PKT` and `ENCODE_PKT` of
  packet.h).

  `DECODE_PKT` copies the received bytes over an
  uninitialized packet and swaps the header fields into host
  order. What was not received keeps the previous contents
  of that memory, here `stale`.

  Key definitions include:
    * `decodePkt`
    * `encodePkt`
    * `TreatedByBytes`

  Key theorems include:
    * `decodePkt_encodePkt`
    * `sameTreatment_of_agree`
    * `treatedByBytes_iff`
-/

------------------------------------------------------------
-- Decoding And Encoding
------------------------------------------------------------

namespace BtPeer

/- `ntohs` and `ntohl` of the bytes at address `a`. -/
def readHalf
    (m : Nat → Byte)
    (a : Nat) : Half :=
  m a ++ m (a + 1)

def readWord
    (m : Nat → Byte)
    (a : Nat) : Word :=
  m a ++ m (a + 1) ++ m (a + 2) ++ m (a + 3)

/- The fields of a `packet_t` in memory, in network order. -/
def packetOf (m : Nat → Byte) : Packet where
  magic := readHalf m 0
  version := m 2
  type := m 3
  hdrLen := readHalf m 4
  pktLen := readHalf m 6
  seq := readWord m 8
  ack := readWord m 12
  payload := fun i => m (headerSize + i)

/- `DECODE_PKT` of `size` bytes of `buf`. -/
def decodePkt
    (buf stale : Nat → Byte)
    (size : Nat) : Packet :=
  packetOf (ByteMemory.memcpy stale 0 buf size)

/- The packet in network order, as `ENCODE_PKT` copies it. -/
def encodePkt (pkt : Packet) : Nat → Byte
| 0 => pkt.magic.extractLsb' 8 8
| 1 => pkt.magic.extractLsb' 0 8
| 2 => pkt.version
| 3 => pkt.type
| 4 => pkt.hdrLen.extractLsb' 8 8
| 5 => pkt.hdrLen.extractLsb' 0 8
| 6 => pkt.pktLen.extractLsb' 8 8
| 7 => pkt.pktLen.extractLsb' 0 8
| 8 => pkt.seq.extractLsb' 24 8
| 9 => pkt.seq.extractLsb' 16 8
| 10 => pkt.seq.extractLsb' 8 8
| 11 => pkt.seq.extractLsb' 0 8
| 12 => pkt.ack.extractLsb' 24 8
| 13 => pkt.ack.extractLsb' 16 8
| 14 => pkt.ack.extractLsb' 8 8
| 15 => pkt.ack.extractLsb' 0 8
| i + 16 => pkt.payload i

theorem half_of_bytes
    (x : Half) :
    x.extractLsb' 8 8 ++ x.extractLsb' 0 8 = x := by
  rw [BitVec.extractLsb'_append_extractLsb'_eq_extractLsb'
    (by rfl)]
  exact BitVec.extractLsb'_eq_self

theorem word_of_bytes
    (x : Word) :
    x.extractLsb' 24 8 ++ x.extractLsb' 16 8 ++
        x.extractLsb' 8 8 ++ x.extractLsb' 0 8 = x := by
  rw [BitVec.extractLsb'_append_extractLsb'_eq_extractLsb'
      (by rfl),
    BitVec.extractLsb'_append_extractLsb'_eq_extractLsb'
      (by rfl),
    BitVec.extractLsb'_append_extractLsb'_eq_extractLsb'
      (by rfl)]
  exact BitVec.extractLsb'_eq_self

/- Reading the bytes of a packet gives the packet back. -/
theorem packetOf_encodePkt
    (pkt : Packet) :
    packetOf (encodePkt pkt) = pkt := by
  have hMagic := half_of_bytes pkt.magic
  have hHdr := half_of_bytes pkt.hdrLen
  have hPkt := half_of_bytes pkt.pktLen
  have hSeq := word_of_bytes pkt.seq
  have hAck := word_of_bytes pkt.ack
  cases pkt with
  | mk magic version type hdrLen pktLen seq ack payload =>
      simp only [packetOf, readHalf, readWord, Packet.mk.injEq]
      refine ⟨hMagic, rfl, rfl, hHdr, hPkt, hSeq, hAck, ?_⟩
      funext i
      rw [headerSize_eq, Nat.add_comm]
      rfl

end BtPeer

------------------------------------------------------------
-- Packets That Agree On Their Bytes
------------------------------------------------------------

namespace BtPeer

/- The same header, and the same bytes up to `pkt_len`. -/
structure Alike (pkt pkt' : Packet) : Prop where
  header : pkt' = { pkt with payload := pkt'.payload }
  payload :
    ∀ i, headerSize + i < pkt.pktLen.toNat →
      pkt.payload i = pkt'.payload i

/- Two packets that agree with a third agree. -/
theorem Alike.of_common
    {pkt pkt' pkt'' : Packet}
    (hAlike : Alike pkt pkt')
    (hAlike' : Alike pkt pkt'') :
    Alike pkt' pkt'' where
  header := by
    rw [hAlike'.header, hAlike.header]
  payload := by
    intro i hi
    have hPktLen : pkt'.pktLen = pkt.pktLen := by
      rw [hAlike.header]
    rw [hPktLen] at hi
    exact (hAlike.payload i hi).symm.trans
      (hAlike'.payload i hi)

/-
  Both packets are accepted or refused, and whatever the
  accessors read of an accepted one, they read of the other.
-/
structure SameTreatment (pkt pkt' : Packet) : Prop where
  accepted : validPacket pkt = validPacket pkt'
  header :
    validPacket pkt = true →
      pkt' = { pkt with payload := pkt'.payload }
  dataLen :
    validPacket pkt = true →
      pkt.getDataLen = pkt'.getDataLen
  chunkCnt :
    validPacket pkt = true → pkt.HasCount →
      pkt.getChunkCnt = pkt'.getChunkCnt
  hash :
    validPacket pkt = true →
      ∀ n, pkt.HasHash n → pkt.getHash n = pkt'.getHash n
  data :
    validPacket pkt = true →
      ∀ i : Nat, (i : Int) < pkt.getDataLen →
        pkt.getData i = pkt'.getData i

section

variable {pkt pkt' : Packet}

/- The bytes from an offset inside the data agree. -/
theorem Alike.payload_at
    (hAlike : Alike pkt pkt')
    {off : Int}
    {i : Nat}
    (hOff : 0 ≤ off)
    (hRoom : off + i < pkt.pktLen.toNat - headerSize) :
    pkt.payload (off.toNat + i) =
      pkt'.payload (off.toNat + i) := by
  apply hAlike.payload
  simp only [headerSize_eq] at hRoom ⊢
  omega

theorem dataOffset_nonneg
    (hExt : 0 ≤ pkt.extHeaderSize) :
    0 ≤ pkt.dataOffset := by
  simp only [Packet.dataOffset, Packet.maxOffset]
  omega

/- The chunk count lies within the data. -/
theorem Alike.getChunkCnt_eq
    (hAlike : Alike pkt pkt')
    (hExt : 0 ≤ pkt.extHeaderSize)
    (hLen : 4 ≤ pkt.getDataLen) :
    pkt.getChunkCnt = pkt'.getChunkCnt := by
  have hOffset : pkt'.dataOffset = pkt.dataOffset := by
    rw [hAlike.header]
    rfl
  have hNonneg := dataOffset_nonneg hExt
  have hByte :=
    @Alike.payload_at pkt pkt' hAlike pkt.dataOffset 0 hNonneg
      (by
        simp only [Packet.dataOffset, Packet.maxOffset,
          Packet.getDataLen, Packet.extHeaderSize,
          headerSize_eq, sha1HashSize_eq] at hExt hLen ⊢
        omega)
  rw [Nat.add_zero] at hByte
  simp only [Packet.getChunkCnt, hOffset, hByte]

/- `valid_packet` looks at the header and the count only. -/
theorem Alike.validPacket_eq
    (hAlike : Alike pkt pkt') :
    validPacket pkt = validPacket pkt' := by
  have hCnt := hAlike.getChunkCnt_eq
  have hHeader := hAlike.header
  generalize pkt'.payload = payload at hHeader
  subst hHeader
  unfold validPacket
  by_cases hMagic : pkt.magic ≠ magicNumber
  · rw [if_pos hMagic, if_pos hMagic]
  · rw [if_neg hMagic, if_neg hMagic]
    by_cases hVersion : pkt.version ≠ versionNumber
    · rw [if_pos hVersion, if_pos hVersion]
    · rw [if_neg hVersion, if_neg hVersion]
      by_cases hLengths :
          pkt.pktLen < pkt.hdrLen ∨
            pkt.hdrLen.toNat < headerSize
      · rw [if_pos hLengths, if_pos hLengths]
      · rw [if_neg hLengths, if_neg hLengths]
        have hExt : 0 ≤ pkt.extHeaderSize := by
          unfold Packet.extHeaderSize
          omega
        by_cases hSize : packetSize < pkt.pktLen.toNat
        · rw [if_pos hSize, if_pos hSize]
        · rw [if_neg hSize, if_neg hSize]
          by_cases hShort : pkt.getDataLen < 4
          · simp only [Packet.getDataLen] at hShort
            simp only [Packet.getDataLen, hShort, if_true]
            rfl
          · rw [← hCnt hExt (Int.not_lt.mp hShort)]
            rfl

/- A hash is read from within the data. -/
theorem hashOffset_bounds
    (hValid : validPacket pkt = true)
    {n : Nat}
    (hHash : pkt.HasHash n) :
    0 ≤ pkt.hashOffset n ∧
      pkt.hashOffset n + sha1HashSize ≤ pkt.getDataLen := by
  have hExt := extHeaderSize_nonneg hValid
  have hRoom : (sha1HashSize : Int) ≤ pkt.getDataLen := by
    rcases hHash with ⟨hCount, _⟩ | ⟨hGet, _⟩
    · have hHashes := validPacket_hashes hValid hCount
      simp only [sha1HashSize_eq] at hHashes ⊢
      omega
    · exact validPacket_get hValid hGet
  have hCount : 0 ≤ pkt.countSize := by
    unfold Packet.countSize
    split <;> omega
  simp only [Packet.hashOffset, Packet.maxOffset,
    sha1HashSize_eq] at hRoom ⊢
  omega

theorem Alike.getHash_eq
    (hAlike : Alike pkt pkt')
    (hValid : validPacket pkt = true)
    {n : Nat}
    (hHash : pkt.HasHash n) :
    pkt.getHash n = pkt'.getHash n := by
  have hHeader := validPacket_header hValid
  rcases hashOffset_bounds hValid hHash with ⟨hLow, hHigh⟩
  have hOffset : pkt'.hashOffset n = pkt.hashOffset n := by
    rw [hAlike.header]
    rfl
  unfold Packet.getHash
  rw [hOffset]
  apply binary2hex_congr
  intro i hi
  apply hAlike.payload_at hLow
  simp only [Packet.getDataLen] at hHigh
  simp only [headerSize_eq, sha1HashSize_eq] at hHeader hHigh hi ⊢
  omega

/- The data is read from within the data. -/
theorem Alike.getData_eq
    (hAlike : Alike pkt pkt')
    (hExt : 0 ≤ pkt.extHeaderSize)
    {i : Nat}
    (hi : (i : Int) < pkt.getDataLen) :
    pkt.getData i = pkt'.getData i := by
  have hNonneg := dataOffset_nonneg hExt
  have hOffset : pkt'.dataOffset = pkt.dataOffset := by
    rw [hAlike.header]
    rfl
  unfold Packet.getData
  rw [hOffset]
  apply hAlike.payload_at hNonneg
  simp only [Packet.dataOffset, Packet.extHeaderSize,
    Packet.getDataLen, headerSize_eq] at hi ⊢
  omega

/- Packets that agree up to `pkt_len` are treated alike. -/
theorem sameTreatment_of_alike
    (hAlike : Alike pkt pkt') :
    SameTreatment pkt pkt' where
  accepted := hAlike.validPacket_eq
  header := fun _ => hAlike.header
  dataLen := by
    intro _
    rw [hAlike.header]
    rfl
  chunkCnt := by
    intro hValid hCount
    have hRoom := validPacket_hashes hValid hCount
    apply hAlike.getChunkCnt_eq (extHeaderSize_nonneg hValid)
    simp only [sha1HashSize_eq] at hRoom
    omega
  hash := fun hValid _ hHash => hAlike.getHash_eq hValid hHash
  data := fun hValid _ hi =>
    hAlike.getData_eq (extHeaderSize_nonneg hValid) hi

end

end BtPeer

------------------------------------------------------------
-- Datagrams Over Previous Contents
------------------------------------------------------------

namespace BtPeer

/- A received byte hides the previous contents. -/
theorem received_byte
    (buf stale : Nat → Byte)
    {size i : Nat}
    (hi : i < size) :
    ByteMemory.memcpy stale 0 buf size i = buf i := by
  have hByte :=
    @ByteMemory.memcpy_inside _ stale buf 0 size i hi
  rwa [Nat.zero_add] at hByte

/- A complete header is decoded from the datagram alone. -/
theorem decodePkt_header
    {buf stale : Nat → Byte}
    {size : Nat}
    (hHeader : headerSize ≤ size) :
    decodePkt buf stale size =
      { packetOf buf with
        payload := (decodePkt buf stale size).payload } := by
  have hByte : ∀ i, i < 16 →
      ByteMemory.memcpy stale 0 buf size i = buf i :=
    fun i hi =>
      received_byte buf stale (Nat.lt_of_lt_of_le hi hHeader)
  simp only [decodePkt, packetOf, readHalf, readWord,
    hByte 0 (by omega), hByte 1 (by omega),
    hByte 2 (by omega), hByte 3 (by omega),
    hByte 4 (by omega), hByte 5 (by omega),
    hByte 6 (by omega), hByte 7 (by omega),
    hByte 8 (by omega), hByte 9 (by omega),
    hByte 10 (by omega), hByte 11 (by omega),
    hByte 12 (by omega), hByte 13 (by omega),
    hByte 14 (by omega), hByte 15 (by omega), Nat.zero_add,
    Nat.reduceAdd]

/- The payload bytes that were received. -/
theorem decodePkt_payload
    (buf stale : Nat → Byte)
    {size i : Nat}
    (hi : headerSize + i < size) :
    (decodePkt buf stale size).payload i =
      buf (headerSize + i) :=
  received_byte buf stale hi

/-
  A datagram that is as long as its `pkt_len` says is decoded
  alike over any previous contents.
-/
theorem decodePkt_alike
    {buf : Nat → Byte}
    {size : Nat}
    (hHeader : headerSize ≤ size)
    (hPktLen : (packetOf buf).pktLen.toNat ≤ size)
    (stale : Nat → Byte) :
    Alike (packetOf buf) (decodePkt buf stale size) where
  header := decodePkt_header hHeader
  payload := by
    intro i hi
    rw [decodePkt_payload buf stale
      (Nat.lt_of_lt_of_le hi hPktLen)]
    rfl

/- The two-run property of `process_inbound_udp`. -/
structure TreatedByBytes
    (buf : Nat → Byte)
    (size : Nat) : Prop where
  same :
    ∀ stale stale',
      SameTreatment (decodePkt buf stale size)
        (decodePkt buf stale' size)
  inside :
    ∀ stale,
      validPacket (decodePkt buf stale size) = true →
        (decodePkt buf stale size).pktLen.toNat ≤ size

/- The header has arrived, and all that `pkt_len` announces. -/
def ArrivedWhole
    (buf : Nat → Byte)
    (size : Nat) : Prop :=
  headerSize ≤ size ∧ (packetOf buf).pktLen.toNat ≤ size

/- The received bytes are refused whatever completes them. -/
def RefusedByBytes
    (buf : Nat → Byte)
    (size : Nat) : Prop :=
  ∀ stale, validPacket (decodePkt buf stale size) = false

/-
  A datagram determines its treatment if and only if it has
  arrived as whole as it says, or is refused anyway.
-/
theorem treatedByBytes_iff
    (buf : Nat → Byte)
    (size : Nat) :
    TreatedByBytes buf size ↔
      ArrivedWhole buf size ∨ RefusedByBytes buf size := by
  constructor
  · intro hTreated
    by_cases hRefused : RefusedByBytes buf size
    · exact Or.inr hRefused
    · left
      unfold RefusedByBytes at hRefused
      rw [not_forall] at hRefused
      rcases hRefused with ⟨stale, hValid⟩
      rw [Bool.not_eq_false] at hValid
      have hInside := hTreated.inside stale hValid
      have hLengths := validPacket_header hValid
      have hHeader : headerSize ≤ size := by omega
      rw [decodePkt_header hHeader] at hInside
      exact ⟨hHeader, hInside⟩
  · rintro (⟨hHeader, hPktLen⟩ | hRefused)
    · refine ⟨?_, ?_⟩
      · intro stale stale'
        exact sameTreatment_of_alike
          (.of_common (decodePkt_alike hHeader hPktLen stale)
            (decodePkt_alike hHeader hPktLen stale'))
      · intro stale _
        rw [decodePkt_header hHeader]
        exact hPktLen
    · have hNever :
          ∀ stale,
            ¬ validPacket (decodePkt buf stale size) = true :=
        fun stale => Bool.eq_false_iff.mp (hRefused stale)
      refine ⟨?_, fun stale h => absurd h (hNever stale)⟩
      intro stale stale'
      exact
        { accepted := by rw [hRefused stale, hRefused stale']
          header := fun h => absurd h (hNever stale)
          dataLen := fun h => absurd h (hNever stale)
          chunkCnt := fun h => absurd h (hNever stale)
          hash := fun h => absurd h (hNever stale)
          data := fun h => absurd h (hNever stale) }

/- A DATA packet that announces 1024 bytes of data. -/
def truncatedData : Packet where
  magic := magicNumber
  version := versionNumber
  type := PacketType.data.code
  hdrLen := 16
  pktLen := 1040
  seq := 1
  ack := 0
  payload := fun _ => 0

/-
  Its header alone is accepted, and the data is what was in
  memory before.
-/
theorem truncatedData_not_determined :
    let buf := encodePkt truncatedData
    let pkt := fun b : Byte => decodePkt buf (fun _ => b) 16
    validPacket (pkt 0) = true ∧
      (pkt 0).pktLen.toNat = 1040 ∧
      (pkt 0).getData 0 ≠ (pkt 7).getData 0 ∧
      ¬ TreatedByBytes buf 16 := by
  have hValid :
      validPacket
        (decodePkt (encodePkt truncatedData) (fun _ => 0) 16) =
          true := by
    decide
  refine ⟨hValid, by decide, by decide, ?_⟩
  intro hTreated
  exact absurd (hTreated.inside (fun _ => 0) hValid)
    (by decide)

/- A packet that arrives whole is decoded as it was sent. -/
theorem decodePkt_encodePkt
    {pkt : Packet}
    (hHeader : headerSize ≤ pkt.pktLen.toNat)
    (stale : Nat → Byte) :
    Alike pkt
      (decodePkt (encodePkt pkt) stale pkt.pktLen.toNat) := by
  have hAlike :=
    @decodePkt_alike (encodePkt pkt) pkt.pktLen.toNat hHeader
      (by rw [packetOf_encodePkt]) stale
  rwa [packetOf_encodePkt] at hAlike

end BtPeer
