import BtPeer.Broadcast

/-
  The packets of one `send_packet` call that carry hashes,
  one by one, and what a receiver reads from each of them.

  Key definitions include:
    * `Packet.hashes`
    * `CarriesHashes`
    * `sliceHashes`
    * `ChunkList.SlicesUnfetched`

  Key theorems include:
    * `CarriesHashes.getHash`
    * `CarriesHashes.valid_iff`
    * `mem_buildPackets`
    * `getPackets_carry`
-/

------------------------------------------------------------
-- Reading A Packet With Hashes
------------------------------------------------------------

namespace BtPeer

/- The hashes that a receiver reads, in order. -/
def Packet.hashes (pkt : Packet) : List CString :=
  (List.range pkt.getChunkCnt).map pkt.getHash

/- The bytes of the chunk count, which a GET does not have. -/
def countBytes (t : PacketType) : Nat :=
  if t = .get then 0 else 4

/- A packet of type `t` as `send_packet` fills it. -/
structure CarriesHashes
    (t : PacketType)
    (hashes : List CString)
    (pkt : Packet) : Prop where
  magic : pkt.magic = magicNumber
  version : pkt.version = versionNumber
  type : pkt.type = t.code
  hdrLen : pkt.hdrLen.toNat = headerSize
  pktLen :
    pkt.pktLen.toNat =
      headerSize + countBytes t +
        sha1HashSize * hashes.length
  few : hashes.length ≤ hashNumPkt
  count :
    t ≠ .get → pkt.payload 0 = BitVec.ofNat 8 hashes.length
  groups :
    groups pkt.payload (countBytes t) 0 hashes.length =
      hashes.map hashBytes

namespace CarriesHashes

variable {t : PacketType}
variable {hashes : List CString}
variable {pkt : Packet}

theorem ofCode_type
    (hCarries : CarriesHashes t hashes pkt) :
    PacketType.ofCode pkt.type = some t := by
  rw [hCarries.type]
  exact PacketType.ofCode_code t

theorem extHeaderSize_eq
    (hCarries : CarriesHashes t hashes pkt) :
    pkt.extHeaderSize = 0 := by
  rw [Packet.extHeaderSize, hCarries.hdrLen]
  exact Int.sub_self _

theorem getDataLen_eq
    (hCarries : CarriesHashes t hashes pkt) :
    pkt.getDataLen =
      countBytes t + sha1HashSize * hashes.length := by
  rw [Packet.getDataLen, hCarries.hdrLen, hCarries.pktLen]
  simp only [headerSize_eq]
  omega

theorem countSize_eq
    (hCarries : CarriesHashes t hashes pkt) :
    pkt.countSize = countBytes t := by
  rw [Packet.countSize, hCarries.type]
  cases t <;> rfl

/- The count that a receiver reads. -/
theorem getChunkCnt_eq
    (hCarries : CarriesHashes t hashes pkt)
    (hCount : t ≠ .get) :
    pkt.getChunkCnt = hashes.length := by
  have hFew := hCarries.few
  have hOffset : pkt.dataOffset = 0 := by
    simp only [Packet.dataOffset, Packet.maxOffset,
      hCarries.extHeaderSize_eq]
    omega
  simp only [hashNumPkt_eq] at hFew
  simp only [Packet.getChunkCnt, hOffset, Int.toNat_zero,
    hCarries.count hCount, BitVec.toNat_ofNat]
  omega

theorem hashOffset_eq
    (hCarries : CarriesHashes t hashes pkt)
    {n : Nat}
    (hn : n < hashes.length) :
    (pkt.hashOffset n).toNat =
      countBytes t + sha1HashSize * (0 + n) := by
  simp only [Packet.hashOffset, Packet.maxOffset,
    hCarries.getDataLen_eq, hCarries.extHeaderSize_eq,
    hCarries.countSize_eq, sha1HashSize_eq]
  omega

/- The 20-byte groups that a receiver finds. -/
theorem placedHashes_eq
    (hCarries : CarriesHashes t hashes pkt)
    (hCount : t ≠ .get) :
    pkt.placedHashes = hashes.map hashBytes := by
  rw [← hCarries.groups, Packet.placedHashes,
    hCarries.getChunkCnt_eq hCount]
  apply List.map_congr_left
  intro n hn
  rw [hCarries.hashOffset_eq (List.mem_range.mp hn)]

/- The hash that a receiver reads. -/
theorem getHash_eq
    (hCarries : CarriesHashes t hashes pkt)
    {n : Nat}
    (hn : n < hashes.length) :
    pkt.getHash n = spelled hashes[n] := by
  have hGroup :
      ByteMemory.block pkt.payload
          (countBytes t + sha1HashSize * (0 + n))
          sha1HashSize =
        hashBytes hashes[n] := by
    have hAt :=
      congrArg (fun gs => gs[n]?) hCarries.groups
    simp only [BtPeer.groups, List.getElem?_map,
      List.getElem?_range hn, Option.map_some,
      List.getElem?_eq_getElem hn, Option.some.injEq] at hAt
    exact hAt
  unfold Packet.getHash
  rw [hCarries.hashOffset_eq hn]
  apply binary2hex_congr
  intro i hi
  have hByte := ByteMemory.block_cells hGroup hi
  rw [Nat.zero_add i] at hByte
  exact hByte

/- All the hashes that a receiver reads. -/
theorem hashes_eq
    (hCarries : CarriesHashes t hashes pkt)
    (hCount : t ≠ .get) :
    pkt.hashes = hashes.map spelled := by
  have hCnt := hCarries.getChunkCnt_eq hCount
  apply List.ext_getElem
  · simp [Packet.hashes, hCnt]
  · intro n hn hn'
    simp only [Packet.hashes, List.getElem_map,
      List.getElem_range]
    exact hCarries.getHash_eq _

/-
  A receiver takes the packet exactly when it carries a hash.
-/
theorem valid_iff
    (hCarries : CarriesHashes t hashes pkt)
    (hType : t = .whohas ∨ t = .ihave) :
    validPacket pkt = true ↔ hashes ≠ [] := by
  have hFew := hCarries.few
  have hLen := hCarries.pktLen
  have hHdr := hCarries.hdrLen
  have hNotGet : t ≠ .get := by
    rcases hType with rfl | rfl <;> simp
  have hCnt := hCarries.getChunkCnt_eq hNotGet
  have hData := hCarries.getDataLen_eq
  have hSize : countBytes t = 4 := if_neg hNotGet
  rw [hSize] at hLen hData
  simp only [hashNumPkt_eq, headerSize_eq,
    sha1HashSize_eq] at hFew hLen hHdr hData
  have hOrder :
      ¬ (pkt.pktLen < pkt.hdrLen ∨
        pkt.hdrLen.toNat < headerSize) := by
    simp only [BitVec.lt_def, headerSize_eq]
    omega
  have hRoom : ¬ packetSize < pkt.pktLen.toNat := by
    simp only [packetSize_eq]
    omega
  have hFour : ¬ pkt.getDataLen < 4 := by omega
  have hFits :
      ¬ (pkt.getDataLen - 4) / sha1HashSize <
        hashes.length := by
    simp only [sha1HashSize_eq]
    omega
  have hCode :
      PacketType.ofCode pkt.type = some .whohas ∨
        PacketType.ofCode pkt.type = some .ihave := by
    rw [hCarries.ofCode_type]
    rcases hType with rfl | rfl
    · exact Or.inl rfl
    · exact Or.inr rfl
  unfold validPacket
  rw [if_neg (not_not.mpr hCarries.magic),
    if_neg (not_not.mpr hCarries.version), if_neg hOrder,
    if_neg hRoom]
  rcases hCode with hCode | hCode <;>
  · simp only [hCode, if_neg hFour, decide_eq_false hFits,
      Bool.or_false, Bool.not_eq_true', decide_eq_false_iff_not,
      hCnt, List.length_eq_zero_iff, ne_eq]

/- A receiver takes a GET with its one hash. -/
theorem valid_get
    (hCarries : CarriesHashes .get hashes pkt)
    (hOne : hashes ≠ []) :
    validPacket pkt = true := by
  have hFew := hCarries.few
  have hLen := hCarries.pktLen
  have hHdr := hCarries.hdrLen
  have hData := hCarries.getDataLen_eq
  have hSize : countBytes .get = 0 := rfl
  have hPos := List.length_pos_iff.mpr hOne
  rw [hSize] at hLen hData
  simp only [hashNumPkt_eq, headerSize_eq,
    sha1HashSize_eq] at hFew hLen hHdr hData
  have hOrder :
      ¬ (pkt.pktLen < pkt.hdrLen ∨
        pkt.hdrLen.toNat < headerSize) := by
    simp only [BitVec.lt_def, headerSize_eq]
    omega
  have hRoom : ¬ packetSize < pkt.pktLen.toNat := by
    simp only [packetSize_eq]
    omega
  have hFits : ¬ pkt.getDataLen < sha1HashSize := by
    simp only [sha1HashSize_eq]
    omega
  unfold validPacket
  rw [if_neg (not_not.mpr hCarries.magic),
    if_neg (not_not.mpr hCarries.version), if_neg hOrder,
    if_neg hRoom, hCarries.ofCode_type]
  simp only [decide_eq_false hFits, Bool.not_false]

end CarriesHashes

end BtPeer

------------------------------------------------------------
-- What Each Packet Carries
------------------------------------------------------------

namespace BtPeer

variable {getchunks c : ChunkList}
variable {pp : PktParam}

theorem addHashes_header
    (k j cnt : Nat)
    (pkt : Packet) :
    (addHashes getchunks c pp k j cnt pkt).2 =
      { pkt with
        payload :=
          (addHashes getchunks c pp k j cnt pkt).2.payload } := by
  induction k generalizing j cnt pkt with
  | zero => rfl
  | succ k ih =>
      unfold addHashes
      split
      · exact ih (j + 1) (cnt + 1) _
      · exact ih (j + 1) cnt pkt

theorem hashPacket_magic
    (j limit : Nat)
    (pkt : Packet) :
    (hashPacket getchunks c pp j limit pkt).magic =
        magicNumber ∧
      (hashPacket getchunks c pp j limit pkt).version =
        versionNumber := by
  have hHeader :=
    @addHashes_header getchunks c pp (limit - j) j 0
      (setHeader pp pkt)
  have hMagic := congrArg Packet.magic hHeader
  have hVersion := congrArg Packet.version hHeader
  unfold hashPacket
  by_cases hGet : pp.type = .get
  · rw [if_pos hGet]
    exact ⟨hMagic, hVersion⟩
  · rw [if_neg hGet]
    exact ⟨hMagic, hVersion⟩

/- A WHOHAS or IHAVE packet carries the selected hashes. -/
theorem hashPacket_carries
    (hType : pp.type = .whohas ∨ pp.type = .ihave)
    {j limit : Nat}
    (hRoom : limit - j ≤ hashNumPkt)
    (pkt : Packet) :
    CarriesHashes pp.type
      (selectedHashes getchunks c pp j (limit - j))
      (hashPacket getchunks c pp j limit pkt) := by
  have hFew :
      (selectedHashes getchunks c pp j (limit - j)).length ≤
        hashNumPkt :=
    Nat.le_trans (selectedHashes_length_le j (limit - j)) hRoom
  have hNotGet : pp.type ≠ .get := by
    rcases hType with h | h <;> simp [h]
  have hSize : countBytes pp.type = 4 := if_neg hNotGet
  rcases @hashPacket_header getchunks c pp hType j limit pkt
    with ⟨hCode, hHdr, hPkt, hCnt, hGroups⟩
  rcases @hashPacket_magic getchunks c pp j limit pkt with
    ⟨hMagic, hVersion⟩
  refine ⟨hMagic, hVersion, hCode, ?_, ?_, hFew,
    fun _ => hCnt, ?_⟩
  · rw [hHdr]
    rfl
  · rw [hPkt, hSize, BitVec.toNat_ofNat]
    simp only [hashNumPkt_eq] at hFew
    simp only [headerSize_eq, sha1HashSize_eq]
    omega
  · rw [hSize]
    exact hGroups

/- The chunks whose hashes packet `m` of a call may carry. -/
def sliceHashes
    (getchunks c : ChunkList)
    (pp : PktParam)
    (m : Nat) : List CString :=
  selectedHashes getchunks c pp
    (min (pp.chunkCount c) (hashNumPkt * m))
    (min (pp.chunkCount c) (hashNumPkt * (m + 1)) -
      min (pp.chunkCount c) (hashNumPkt * m))

/- Packet `m` of the loop carries slice `m`, and no others. -/
theorem mem_hashPackets
    (hType : pp.type = .whohas ∨ pp.type = .ihave)
    (k i : Nat)
    (pkt : Packet) :
    (∀ out ∈
        hashPackets getchunks c pp k i
          (min (pp.chunkCount c) (hashNumPkt * i)) pkt,
        ∃ m, i ≤ m ∧ m < i + k ∧
          CarriesHashes pp.type (sliceHashes getchunks c pp m)
            out) ∧
      ∀ m, i ≤ m → m < i + k →
        ∃ out ∈
          hashPackets getchunks c pp k i
            (min (pp.chunkCount c) (hashNumPkt * i)) pkt,
          CarriesHashes pp.type (sliceHashes getchunks c pp m)
            out := by
  induction k generalizing i pkt with
  | zero =>
      refine ⟨?_, ?_⟩
      · intro out hMem
        cases hMem
      · intro m hLow hHigh
        omega
  | succ k ih =>
      have hCursor :
          max (min (pp.chunkCount c) (hashNumPkt * i))
              (min (pp.chunkCount c) (hashNumPkt * (i + 1))) =
            min (pp.chunkCount c) (hashNumPkt * (i + 1)) := by
        simp only [hashNumPkt_eq]
        omega
      have hRoom :
          min (pp.chunkCount c) (hashNumPkt * (i + 1)) -
              min (pp.chunkCount c) (hashNumPkt * i) ≤
            hashNumPkt := by
        simp only [hashNumPkt_eq]
        omega
      have hFirst :=
        @hashPacket_carries getchunks c pp hType _ _ hRoom pkt
      simp only [hashPackets, hCursor]
      rcases ih (i + 1)
          (hashPacket getchunks c pp
            (min (pp.chunkCount c) (hashNumPkt * i))
            (min (pp.chunkCount c) (hashNumPkt * (i + 1)))
            pkt) with ⟨hEach, hAll⟩
      refine ⟨?_, ?_⟩
      · intro out hMem
        rcases List.mem_cons.mp hMem with rfl | hRest
        · exact ⟨i, Nat.le_refl i, by omega, hFirst⟩
        · rcases hEach out hRest with
            ⟨m, hLow, hHigh, hCarries⟩
          exact ⟨m, by omega, by omega, hCarries⟩
      · intro m hLow hHigh
        by_cases hHead : m = i
        · subst hHead
          exact ⟨_, List.mem_cons_self, hFirst⟩
        · rcases hAll m (by omega) (by omega) with
            ⟨out, hMem, hCarries⟩
          exact ⟨out, List.mem_cons_of_mem _ hMem, hCarries⟩

/- The packets of one WHOHAS or IHAVE call. -/
theorem mem_buildPackets
    (hType : pp.type = .whohas ∨ pp.type = .ihave)
    (hList : pp.c = some c)
    (hPeer : 0 ≤ pp.pIndex)
    (hChunk : 0 ≤ pp.cIndex)
    (stack : Nat → Byte) :
    (∀ pkt ∈ buildPackets getchunks stack pp,
        ∃ m, m < packetNum (pp.chunkCount c) ∧
          CarriesHashes pp.type (sliceHashes getchunks c pp m)
            pkt) ∧
      ∀ m, m < packetNum (pp.chunkCount c) →
        ∃ pkt ∈ buildPackets getchunks stack pp,
          CarriesHashes pp.type (sliceHashes getchunks c pp m)
            pkt := by
  have hNondata : pp.nondata = true := by
    rcases hType with h | h <;> simp [PktParam.nondata, h]
  have hGuard : ¬ (pp.pIndex < 0 ∨ pp.cIndex < 0) := by
    omega
  rcases @mem_hashPackets getchunks c pp hType
      (packetNum (pp.chunkCount c)) 0
      (stackPacket stack) with ⟨hEach, hAll⟩
  simp only [Nat.mul_zero, Nat.min_zero, Nat.zero_add,
    Nat.zero_le, true_and, forall_true_left] at hEach hAll
  simp only [buildPackets, hGuard, if_false, hList, hNondata]
  exact ⟨hEach, hAll⟩

/- A call for at most 74 chunks makes one packet. -/
theorem buildPackets_one
    (hType : pp.type = .whohas ∨ pp.type = .ihave)
    (hList : pp.c = some c)
    (hPeer : 0 ≤ pp.pIndex)
    (hChunk : 0 ≤ pp.cIndex)
    (stack : Nat → Byte)
    (hSome : 0 < pp.chunkCount c)
    (hFew : pp.chunkCount c ≤ hashNumPkt) :
    ∃ pkt,
      buildPackets getchunks stack pp = [pkt] ∧
        CarriesHashes pp.type
          (selectedHashes getchunks c pp 0 (pp.chunkCount c))
          pkt := by
  have hNondata : pp.nondata = true := by
    rcases hType with h | h <;> simp [PktParam.nondata, h]
  have hGuard : ¬ (pp.pIndex < 0 ∨ pp.cIndex < 0) := by
    omega
  have hOne : packetNum (pp.chunkCount c) = 1 := by
    simp only [packetNum, sha1HashSize_eq, maxPayloadSize_eq]
    simp only [hashNumPkt_eq] at hFew
    omega
  have hLimit :
      min (pp.chunkCount c) (hashNumPkt * (0 + 1)) =
        pp.chunkCount c := by
    rw [Nat.zero_add, Nat.mul_one]
    exact Nat.min_eq_left hFew
  refine
    ⟨hashPacket getchunks c pp 0 (pp.chunkCount c)
      (stackPacket stack), ?_, ?_⟩
  · simp only [buildPackets, hGuard, if_false, hList, hNondata,
      hOne, hashPackets, hLimit]
  · exact @hashPacket_carries getchunks c pp hType 0
      (pp.chunkCount c) hFew (stackPacket stack)

/- The one packet of a GET call. -/
theorem getPackets_eq
    (getchunks : ChunkList)
    (pIndex getIndex : Nat)
    (stack : Nat → Byte) :
    let pp := getParam getchunks pIndex getIndex
    buildPackets getchunks stack pp =
      [{ (setHeader pp (stackPacket stack)).setHash 0
            (getchunks.chunks getIndex).sha1 with
          pktLen := BitVec.ofNat 16 36 }] := by
  have hPeer : ¬ ((pIndex : Int) < 0) := by omega
  have hChunk : ¬ ((getIndex : Int) < 0) := by omega
  have hOne : packetNum 1 = 1 := rfl
  simp [buildPackets, hPeer, hChunk, hOne, hashPackets,
    hashPacket, addHashes, selected, getParam,
    PktParam.clear, PktParam.nondata, PktParam.chunkCount]

theorem getPackets_carry
    (getchunks : ChunkList)
    (pIndex getIndex : Nat)
    (stack : Nat → Byte) :
    ∃ pkt,
      buildPackets getchunks stack
          (getParam getchunks pIndex getIndex) = [pkt] ∧
        CarriesHashes .get [(getchunks.chunks getIndex).sha1]
          pkt := by
  let pp := getParam getchunks pIndex getIndex
  let start := setHeader pp (stackPacket stack)
  have hExt : start.extHeaderSize = 0 := by
    simp [start, setHeader, Packet.extHeaderSize]
  have hCount : start.countSize = 0 := by
    simp [start, setHeader, Packet.countSize, pp, getParam]
  have hBase : hashBase start = 0 := by
    simp only [hashBase, hExt, hCount]
    rfl
  have hBlock :=
    setHash_block start (Int.le_of_eq hExt.symm) 0
      (getchunks.chunks getIndex).sha1
  rw [hBase] at hBlock
  refine ⟨_, getPackets_eq getchunks pIndex getIndex stack,
    rfl, rfl, rfl, rfl, rfl, ?_, fun h => absurd rfl h, ?_⟩
  · simp only [List.length_singleton, hashNumPkt_eq]
    omega
  · simp only [groups, List.length_singleton, List.range_one,
      List.map_cons, List.map_nil]
    exact congrArg (fun b => [b]) hBlock

end BtPeer

------------------------------------------------------------
-- The Type Of Every Packet
------------------------------------------------------------

namespace BtPeer

variable {getchunks c : ChunkList}
variable {pp : PktParam}

theorem hashPackets_type
    (k i j : Nat)
    (pkt : Packet) :
    ∀ out ∈ hashPackets getchunks c pp k i j pkt,
      out.type = pp.type.code := by
  induction k generalizing i j pkt with
  | zero =>
      intro out hMem
      cases hMem
  | succ k ih =>
      intro out hMem
      rcases List.mem_cons.mp hMem with rfl | hRest
      · have hHeader :=
          @addHashes_header getchunks c pp
            (min (pp.chunkCount c) (hashNumPkt * (i + 1)) - j)
            j 0 (setHeader pp pkt)
        have hType := congrArg Packet.type hHeader
        unfold hashPacket
        by_cases hGet : pp.type = .get
        · rw [if_pos hGet]
          exact hType
        · rw [if_neg hGet]
          exact hType
      · exact ih (i + 1) _ _ out hRest

theorem plainPacket_type
    (pkt : Packet) :
    ∀ out ∈ plainPacket pp pkt, out.type = pp.type.code := by
  intro out hMem
  unfold plainPacket at hMem
  dsimp only at hMem
  split at hMem
  · split at hMem
    · cases hMem
    · rw [List.mem_singleton.mp hMem]
      rfl
  · rw [List.mem_singleton.mp hMem]
    rfl

/- Every packet of a call has the type that was asked for. -/
theorem buildPackets_type
    (stack : Nat → Byte) :
    ∀ pkt ∈ buildPackets getchunks stack pp,
      pkt.type = pp.type.code := by
  intro pkt hMem
  unfold buildPackets at hMem
  split at hMem
  · cases hMem
  · split at hMem
    · exact hashPackets_type _ 0 0 _ pkt hMem
    · exact plainPacket_type _ pkt hMem

end BtPeer
