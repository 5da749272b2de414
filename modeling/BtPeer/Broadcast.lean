import BtPeer.SendPacket

/-
  The hashes that a WHOHAS broadcast or an IHAVE answer puts
  into its packets.

  The number of packets comes from a byte count that ignores
  the four count bytes of each packet, so the cursor over
  the list can end before the list does.

  Main declarations:
    * `Packet.placedHashes`
    * `coveredCount`
    * `placedHashes_buildPackets`
    * `broadcast_complete_iff`
    * `broadcast_forgets_last_chunk`
-/

------------------------------------------------------------
-- Hashes Of A Packet And Of A List
------------------------------------------------------------

namespace BtPeer

/- The 20 bytes that a hash string stands for. -/
def hashBytes (sha1 : CString) : List Byte :=
  ByteMemory.block (hex2binary sha1) 0 sha1HashSize

/- The 20-byte groups that a receiver counts in a packet. -/
def Packet.placedHashes (pkt : Packet) : List (List Byte) :=
  (List.range pkt.getChunkCnt).map (fun n =>
    ByteMemory.block pkt.payload (pkt.hashOffset n).toNat
      sha1HashSize)

namespace ChunkList

/- The hashes of all the chunks of a list, in order. -/
def hashes (cl : ChunkList) : List CString :=
  (List.range cl.count).map (fun i => (cl.chunks i).sha1)

/- The hashes of the unfetched chunks of a list, in order. -/
def unfetchedHashes (cl : ChunkList) : List CString :=
  ((List.range cl.count).filter
      (fun i => (cl.chunks i).state = .unfetched)).map
    (fun i => (cl.chunks i).sha1)

end ChunkList

/- How far the cursor of `send_packet` gets in `count` chunks. -/
def coveredCount (count : Nat) : Nat :=
  min count (hashNumPkt * packetNum count)

/- The selected hashes of `k` chunks from the cursor `j` on. -/
def selectedHashes
    (getchunks c : ChunkList)
    (pp : PktParam)
    (j k : Nat) : List CString :=
  ((List.range' j k).filter (selected getchunks pp)).map
    (fun i => (c.chunks (pp.cIndex.toNat + i)).sha1)

theorem selectedHashes_succ
    (getchunks c : ChunkList)
    (pp : PktParam)
    (j k : Nat) :
    selectedHashes getchunks c pp j (k + 1) =
      (if selected getchunks pp j then
        [(c.chunks (pp.cIndex.toNat + j)).sha1]
      else []) ++
        selectedHashes getchunks c pp (j + 1) k := by
  by_cases hSel : selected getchunks pp j
  · simp [selectedHashes, List.range'_succ, hSel]
  · simp [selectedHashes, List.range'_succ, hSel]

theorem selectedHashes_append
    (getchunks c : ChunkList)
    (pp : PktParam)
    (j k l : Nat) :
    selectedHashes getchunks c pp j (k + l) =
      selectedHashes getchunks c pp j k ++
        selectedHashes getchunks c pp (j + k) l := by
  simp [selectedHashes, ← List.range'_append_1]

end BtPeer

------------------------------------------------------------
-- Filling One Packet
------------------------------------------------------------

namespace BtPeer

variable {getchunks c : ChunkList}
variable {pp : PktParam}

/- The groups of the placed hashes, from group `cnt` on. -/
def groups
    (payload : Nat → Byte)
    (base cnt n : Nat) : List (List Byte) :=
  (List.range n).map (fun m =>
    ByteMemory.block payload (base + sha1HashSize * (cnt + m))
      sha1HashSize)

theorem groups_succ
    (payload : Nat → Byte)
    (base cnt n : Nat) :
    groups payload base cnt (n + 1) =
      ByteMemory.block payload (base + sha1HashSize * cnt)
          sha1HashSize ::
        groups payload base (cnt + 1) n := by
  simp only [groups, List.range_succ_eq_map, List.map_cons,
    List.map_map, Nat.add_zero]
  congr 1
  apply List.map_congr_left
  intro m _
  simp [Nat.add_right_comm, Nat.add_assoc]

/- Where the first hash of a packet under construction goes. -/
def hashBase (pkt : Packet) : Nat :=
  (pkt.extHeaderSize + pkt.countSize).toNat

theorem setHash_payload_of_lt
    (pkt : Packet)
    (hExt : 0 ≤ pkt.extHeaderSize)
    {cnt a : Nat}
    (hash : CString)
    (ha : a < hashBase pkt + sha1HashSize * cnt) :
    (pkt.setHash cnt hash).payload a = pkt.payload a := by
  apply ByteMemory.memcpy_outside
  left
  have hCount : 0 ≤ pkt.countSize := by
    unfold Packet.countSize
    split <;> omega
  simp only [hashBase, sha1HashSize_eq] at ha ⊢
  omega

theorem setHash_block
    (pkt : Packet)
    (hExt : 0 ≤ pkt.extHeaderSize)
    (cnt : Nat)
    (hash : CString) :
    ByteMemory.block (pkt.setHash cnt hash).payload
        (hashBase pkt + sha1HashSize * cnt) sha1HashSize =
      hashBytes hash := by
  have hCount : 0 ≤ pkt.countSize := by
    unfold Packet.countSize
    split <;> omega
  have hOffset :
      (pkt.extHeaderSize + pkt.countSize +
          cnt * sha1HashSize).toNat =
        hashBase pkt + sha1HashSize * cnt := by
    simp only [hashBase, sha1HashSize_eq]
    omega
  apply ByteMemory.block_congr
  intro i hi
  simp only [Packet.setHash, hOffset, Nat.zero_add]
  exact ByteMemory.memcpy_inside _ _ hi

/-
  The loop over the chunks places the selected hashes, in
  order, behind those already there, and changes nothing
  else in the packet.
-/
theorem addHashes_spec
    (k j cnt : Nat)
    (pkt : Packet)
    (hExt : 0 ≤ pkt.extHeaderSize) :
    let out := addHashes getchunks c pp k j cnt pkt
    let placed := selectedHashes getchunks c pp j k
    out.1 = cnt + placed.length ∧
      out.2 = { pkt with payload := out.2.payload } ∧
      (∀ a, a < hashBase pkt + sha1HashSize * cnt →
        out.2.payload a = pkt.payload a) ∧
      groups out.2.payload (hashBase pkt) cnt
          placed.length =
        placed.map hashBytes := by
  induction k generalizing j cnt pkt with
  | zero =>
      simp [addHashes, selectedHashes, groups]
  | succ k ih =>
      rw [selectedHashes_succ]
      by_cases hSel : selected getchunks pp j
      · have hStep :
            addHashes getchunks c pp (k + 1) j cnt pkt =
              addHashes getchunks c pp k (j + 1) (cnt + 1)
                (pkt.setHash cnt
                  (c.chunks (pp.cIndex.toNat + j)).sha1) := by
          simp [addHashes, hSel]
        rcases ih (j + 1) (cnt + 1)
            (pkt.setHash cnt
              (c.chunks (pp.cIndex.toNat + j)).sha1) hExt with
          ⟨hCnt, hHeader, hBefore, hGroups⟩
        simp only [hStep, hSel, if_true, List.singleton_append,
          List.length_cons, List.map_cons]
        refine ⟨by omega, ?_, ?_, ?_⟩
        · rw [hHeader]
          rfl
        · intro a ha
          rw [hBefore a
            (Nat.lt_of_lt_of_le ha
              (Nat.add_le_add_left
                (Nat.mul_le_mul_left _ (Nat.le_succ cnt)) _))]
          exact setHash_payload_of_lt pkt hExt _ ha
        · rw [groups_succ]
          congr 1
          rw [← setHash_block pkt hExt cnt]
          apply ByteMemory.block_congr
          intro i hi
          apply hBefore
          change _ < hashBase pkt + sha1HashSize * (cnt + 1)
          rw [Nat.mul_succ]
          omega
      · have hStep :
            addHashes getchunks c pp (k + 1) j cnt pkt =
              addHashes getchunks c pp k (j + 1) cnt pkt := by
          simp [addHashes, hSel]
        simp only [hStep, hSel, Bool.false_eq_true, if_false,
          List.nil_append]
        exact ih (j + 1) cnt pkt hExt

/- A packet cannot place more hashes than chunks it visits. -/
theorem selectedHashes_length_le
    (j k : Nat) :
    (selectedHashes getchunks c pp j k).length ≤ k := by
  rw [selectedHashes, List.length_map]
  calc
    ((List.range' j k).filter
        (selected getchunks pp)).length ≤
        (List.range' j k).length := List.length_filter_le _ _
    _ = k := List.length_range'

/- Type and lengths of a finished WHOHAS or IHAVE packet. -/
theorem hashPacket_header
    (hType : pp.type = .whohas ∨ pp.type = .ihave)
    (j limit : Nat)
    (pkt : Packet) :
    let out := hashPacket getchunks c pp j limit pkt
    let placed :=
      selectedHashes getchunks c pp j (limit - j)
    out.type = pp.type.code ∧
      out.hdrLen = BitVec.ofNat 16 headerSize ∧
      out.pktLen =
        BitVec.ofNat 16
          (headerSize + 4 + sha1HashSize * placed.length) ∧
      out.payload 0 = BitVec.ofNat 8 placed.length ∧
      groups out.payload 4 0 placed.length =
        placed.map hashBytes := by
  have hNotGet : pp.type ≠ .get := by
    rcases hType with h | h <;> simp [h]
  have hCode : pp.type.code ≠ PacketType.get.code := by
    rcases hType with h | h <;> simp [h, PacketType.code]
  have hExt : (setHeader pp pkt).extHeaderSize = 0 := by
    simp [setHeader, Packet.extHeaderSize]
  have hCount : (setHeader pp pkt).countSize = 4 := by
    simp [setHeader, Packet.countSize, hCode]
  have hBase : hashBase (setHeader pp pkt) = 4 := by
    simp [hashBase, hExt, hCount]
  rcases @addHashes_spec getchunks c pp (limit - j) j 0 (setHeader pp pkt)
      (Int.le_of_eq hExt.symm) with
    ⟨hCnt, hHeader, _, hGroups⟩
  simp only [Nat.zero_add] at hCnt
  rw [hBase] at hGroups
  simp only [hashPacket, hNotGet, if_false,
    Packet.setChunkCnt]
  rw [hCnt, hHeader]
  refine ⟨rfl, rfl, rfl, ?_, ?_⟩
  · simp [Packet.extHeaderSize, setHeader]
  · rw [← hGroups]
    apply List.map_congr_left
    intro m _
    apply ByteMemory.block_congr
    intro i _
    apply Function.update_of_ne
    simp only [Packet.extHeaderSize, setHeader]
    simp

/- A receiver finds the selected hashes in the packet. -/
theorem placedHashes_hashPacket
    (hType : pp.type = .whohas ∨ pp.type = .ihave)
    {j limit : Nat}
    (hRoom : limit - j ≤ hashNumPkt)
    (pkt : Packet) :
    (hashPacket getchunks c pp j limit pkt).placedHashes =
      (selectedHashes getchunks c pp j (limit - j)).map
        hashBytes := by
  have hLength :=
    @selectedHashes_length_le getchunks c pp j (limit - j)
  rcases @hashPacket_header getchunks c pp hType j limit pkt
    with
    ⟨hCode, hHdr, hPkt, hCnt, hGroups⟩
  generalize
    hashPacket getchunks c pp j limit pkt = out
      at hCode hHdr hPkt hCnt hGroups ⊢
  generalize
    selectedHashes getchunks c pp j (limit - j) = placed
      at hLength hPkt hCnt hGroups ⊢
  have hSmall : placed.length ≤ 74 := by
    simp only [hashNumPkt_eq] at hRoom
    omega
  have hExt : out.extHeaderSize = 0 := by
    simp [Packet.extHeaderSize, hHdr]
  have hDataLen :
      out.getDataLen = 4 + 20 * (placed.length : Int) := by
    simp only [Packet.getDataLen, hHdr, hPkt,
      BitVec.toNat_ofNat, headerSize_eq, sha1HashSize_eq]
    omega
  have hCount : out.countSize = 4 := by
    rcases hType with h | h <;>
      simp [Packet.countSize, hCode, h, PacketType.code]
  have hData : out.dataOffset = 0 := by
    simp only [Packet.dataOffset, Packet.maxOffset, hExt]
    omega
  have hChunkCnt : out.getChunkCnt = placed.length := by
    simp only [Packet.getChunkCnt, hData, Int.toNat_zero,
      hCnt, BitVec.toNat_ofNat]
    omega
  rw [← hGroups, Packet.placedHashes, hChunkCnt]
  apply List.map_congr_left
  intro n hn
  have hLt := List.mem_range.mp hn
  have hOffset :
      (out.hashOffset n).toNat =
        4 + sha1HashSize * (0 + n) := by
    simp only [Packet.hashOffset, Packet.maxOffset, hDataLen,
      hExt, hCount, sha1HashSize_eq]
    omega
  rw [hOffset]

end BtPeer

------------------------------------------------------------
-- The Packets Of One Call
------------------------------------------------------------

namespace BtPeer

variable {getchunks c : ChunkList}
variable {pp : PktParam}

/-
  `k` packets from packet `i` on carry the selected hashes
  of the next `k` slices of the list.
-/
theorem placedHashes_hashPackets
    (hType : pp.type = .whohas ∨ pp.type = .ihave)
    (k i : Nat)
    (pkt : Packet) :
    (hashPackets getchunks c pp k i
        (min (pp.chunkCount c) (hashNumPkt * i))
        pkt).flatMap Packet.placedHashes =
      (selectedHashes getchunks c pp
        (min (pp.chunkCount c) (hashNumPkt * i))
        (min (pp.chunkCount c) (hashNumPkt * (i + k)) -
          min (pp.chunkCount c) (hashNumPkt * i))).map
        hashBytes := by
  induction k generalizing i pkt with
  | zero => simp [hashPackets, selectedHashes]
  | succ k ih =>
      have hCursor :
          max (min (pp.chunkCount c) (hashNumPkt * i))
              (min (pp.chunkCount c) (hashNumPkt * (i + 1))) =
            min (pp.chunkCount c) (hashNumPkt * (i + 1)) := by
        simp only [hashNumPkt_eq]
        omega
      have hSplit :
          min (pp.chunkCount c) (hashNumPkt * (i + (k + 1))) -
              min (pp.chunkCount c) (hashNumPkt * i) =
            (min (pp.chunkCount c) (hashNumPkt * (i + 1)) -
                min (pp.chunkCount c) (hashNumPkt * i)) +
              (min (pp.chunkCount c)
                  (hashNumPkt * (i + 1 + k)) -
                min (pp.chunkCount c)
                  (hashNumPkt * (i + 1))) := by
        simp only [hashNumPkt_eq]
        omega
      have hNext :
          min (pp.chunkCount c) (hashNumPkt * i) +
              (min (pp.chunkCount c) (hashNumPkt * (i + 1)) -
                min (pp.chunkCount c) (hashNumPkt * i)) =
            min (pp.chunkCount c) (hashNumPkt * (i + 1)) := by
        simp only [hashNumPkt_eq]
        omega
      simp only [hashPackets, List.flatMap_cons]
      rw [hCursor, ih (i + 1), hSplit, selectedHashes_append,
        hNext, List.map_append,
        placedHashes_hashPacket hType (by
          simp only [hashNumPkt_eq]
          omega)]

/-
  All the packets of one call carry the selected hashes of
  the covered part of the list.
-/
theorem placedHashes_buildPackets
    (hType : pp.type = .whohas ∨ pp.type = .ihave)
    (hList : pp.c = some c)
    (hPeer : 0 ≤ pp.pIndex)
    (hChunk : 0 ≤ pp.cIndex)
    (stack : Nat → Byte) :
    (buildPackets getchunks stack pp).flatMap
        Packet.placedHashes =
      (selectedHashes getchunks c pp 0
        (coveredCount (pp.chunkCount c))).map hashBytes := by
  have hNondata : pp.nondata = true := by
    rcases hType with h | h <;> simp [PktParam.nondata, h]
  have hGuard : ¬ (pp.pIndex < 0 ∨ pp.cIndex < 0) := by
    omega
  have hAll :=
    @placedHashes_hashPackets getchunks c pp hType
      (packetNum (pp.chunkCount c)) 0
      (stackPacket stack)
  simp only [Nat.mul_zero, Nat.min_zero, Nat.zero_add,
    Nat.sub_zero] at hAll
  simp only [buildPackets, hGuard, if_false, hList, hNondata]
  exact hAll

end BtPeer

------------------------------------------------------------
-- Completeness Of A Broadcast
------------------------------------------------------------

namespace BtPeer

theorem coveredCount_le
    (count : Nat) :
    coveredCount count ≤ count :=
  Nat.min_le_left _ _

/-
  The selected hashes of a covered prefix are all of them
  exactly when nothing is selected behind it.
-/
theorem selectedHashes_prefix_eq_iff
    (getchunks c : ChunkList)
    (pp : PktParam)
    {k n : Nat}
    (hk : k ≤ n) :
    (selectedHashes getchunks c pp 0 k).map hashBytes =
        (selectedHashes getchunks c pp 0 n).map hashBytes ↔
      ∀ j, k ≤ j → j < n → selected getchunks pp j = false := by
  obtain ⟨l, rfl⟩ := Nat.exists_eq_add_of_le hk
  rw [selectedHashes_append, List.map_append]
  rw [List.self_eq_append_right, List.map_eq_nil_iff,
    selectedHashes, List.map_eq_nil_iff,
    List.filter_eq_nil_iff]
  simp only [Nat.zero_add, List.mem_range'_1,
    Bool.not_eq_true]
  constructor
  · intro hNone j hLow hHigh
    exact hNone j ⟨hLow, hHigh⟩
  · intro hNone j hj
    exact hNone j hj.1 hj.2

/- A WHOHAS selects the unfetched chunks. -/
@[simp] theorem selected_whohas
    (getchunks cl : ChunkList)
    (j : Nat) :
    selected getchunks (whohasParam cl) j =
      decide ((getchunks.chunks j).state = .unfetched) := by
  simp [selected, whohasParam, PktParam.clear]

/- An IHAVE selects every chunk. -/
@[simp] theorem selected_ihave
    (getchunks cl : ChunkList)
    (pIndex j : Nat) :
    selected getchunks (ihaveParam cl pIndex) j = true := by
  simp [selected, ihaveParam, PktParam.clear]

theorem selectedHashes_whohas
    (getchunks : ChunkList) :
    selectedHashes getchunks getchunks
        (whohasParam getchunks) 0 getchunks.count =
      getchunks.unfetchedHashes := by
  have hFilter :
      (List.range' 0 getchunks.count).filter
          (selected getchunks (whohasParam getchunks)) =
        (List.range' 0 getchunks.count).filter
          (fun i =>
            (getchunks.chunks i).state = .unfetched) :=
    List.filter_congr (fun j _ => selected_whohas _ _ j)
  rw [selectedHashes, hFilter, ← List.range_eq_range']
  simp [ChunkList.unfetchedHashes, whohasParam,
    PktParam.clear]

theorem selectedHashes_ihave
    (getchunks ihavechunks : ChunkList)
    (pIndex : Nat) :
    selectedHashes getchunks ihavechunks
        (ihaveParam ihavechunks pIndex) 0
        ihavechunks.count =
      ihavechunks.hashes := by
  have hFilter :
      (List.range' 0 ihavechunks.count).filter
          (selected getchunks
            (ihaveParam ihavechunks pIndex)) =
        List.range' 0 ihavechunks.count :=
    List.filter_eq_self.mpr
      (fun j _ => selected_ihave _ _ _ j)
  rw [selectedHashes, hFilter, ← List.range_eq_range']
  simp [ChunkList.hashes, ihaveParam, PktParam.clear]

/- What the packets of a WHOHAS broadcast carry. -/
theorem placedHashes_whohas
    (getchunks : ChunkList)
    (stack : Nat → Byte) :
    (buildPackets getchunks stack
        (whohasParam getchunks)).flatMap
        Packet.placedHashes =
      (selectedHashes getchunks getchunks
        (whohasParam getchunks) 0
        (coveredCount getchunks.count)).map hashBytes :=
  placedHashes_buildPackets (Or.inl rfl) rfl
    (Int.le_refl 0) (Int.le_refl 0) stack

/- What the packets of an IHAVE answer carry. -/
theorem placedHashes_ihave
    (getchunks ihavechunks : ChunkList)
    (pIndex : Nat)
    (stack : Nat → Byte) :
    (buildPackets getchunks stack
        (ihaveParam ihavechunks pIndex)).flatMap
        Packet.placedHashes =
      (selectedHashes getchunks ihavechunks
        (ihaveParam ihavechunks pIndex) 0
        (coveredCount ihavechunks.count)).map hashBytes :=
  placedHashes_buildPackets (Or.inr rfl) rfl
    (Int.natCast_nonneg pIndex) (Int.le_refl 0) stack

/-
  A WHOHAS broadcast carries exactly the unfetched chunks of
  the list if and only if no chunk behind the covered count
  is unfetched; an IHAVE carries exactly its list if and
  only if the whole list is covered.
-/
theorem broadcast_complete_iff
    (getchunks : ChunkList)
    (stack : Nat → Byte) :
    ((buildPackets getchunks stack
          (whohasParam getchunks)).flatMap
          Packet.placedHashes =
        getchunks.unfetchedHashes.map hashBytes ↔
      ∀ i, coveredCount getchunks.count ≤ i →
        i < getchunks.count →
          (getchunks.chunks i).state ≠ .unfetched) ∧
    ∀ (ihavechunks : ChunkList) (pIndex : Nat),
      ((buildPackets getchunks stack
            (ihaveParam ihavechunks pIndex)).flatMap
            Packet.placedHashes =
          ihavechunks.hashes.map hashBytes ↔
        coveredCount ihavechunks.count =
          ihavechunks.count) := by
  constructor
  · rw [placedHashes_whohas, ← selectedHashes_whohas,
      selectedHashes_prefix_eq_iff _ _ _
        (coveredCount_le _)]
    simp
  · intro ihavechunks pIndex
    rw [placedHashes_ihave,
      ← selectedHashes_ihave getchunks ihavechunks pIndex,
      selectedHashes_prefix_eq_iff _ _ _
        (coveredCount_le _)]
    have hLe := coveredCount_le ihavechunks.count
    simp only [selected_ihave]
    constructor
    · intro hNone
      by_contra hShort
      have hOne :=
        hNone (coveredCount ihavechunks.count)
          (Nat.le_refl _) (by omega)
      simp at hOne
    · intro hAll j hLow hHigh
      omega

/- A list of 371 unfetched chunks. -/
def chunks371 : ChunkList where
  count := 371
  chunks := fun i =>
    ⟨.unfetched, i, List.replicate 40 (Nat.digitChar 10)⟩
  count_le := by decide

/- The 371st unfetched chunk of a list is never asked for. -/
theorem broadcast_forgets_last_chunk :
    coveredCount chunks371.count = 370 ∧
      (chunks371.chunks 370).state = .unfetched ∧
      (buildPackets chunks371 (fun _ => 0)
          (whohasParam chunks371)).flatMap
          Packet.placedHashes ≠
        chunks371.unfetchedHashes.map hashBytes := by
  refine ⟨by decide, rfl, ?_⟩
  rw [placedHashes_whohas, ← selectedHashes_whohas, ne_eq,
    selectedHashes_prefix_eq_iff _ _ _ (coveredCount_le _)]
  intro hNone
  exact absurd (hNone 370 (by decide) (by decide)) (by decide)

end BtPeer
