import BtPeer.Packet

/-
  Decoding of packets with an extended header.

  The macros clamp every offset with `MAX_OFFSET`, which is
  computed from the data length alone while the offsets
  count from the start of the payload, extended header
  included. The clamp is inert exactly when the extended
  header fits a second time in front of the data.

  Main declarations:
    * `DecodedAfterHeader`
    * `ExtHeaderFits`
    * `decodedAfterHeader_iff`
    * `extHeader_get_misread`
-/

------------------------------------------------------------
-- Positions After The Extended Header
------------------------------------------------------------

namespace BtPeer

namespace Packet

/- WHOHAS and IHAVE carry a chunk count before the hashes. -/
def HasCount (pkt : Packet) : Prop :=
  PacketType.ofCode pkt.type = some .whohas ∨
    PacketType.ofCode pkt.type = some .ihave

/- The packets that carry hashes. -/
def HasHash
    (pkt : Packet)
    (n : Nat) : Prop :=
  (pkt.HasCount ∧ n < pkt.getChunkCnt) ∨
    (PacketType.ofCode pkt.type = some .get ∧ n = 0)

/- Where the `n`-th hash after the extended header begins. -/
def groupOffset
    (pkt : Packet)
    (n : Nat) : Int :=
  pkt.extHeaderSize + pkt.countSize + n * sha1HashSize

end Packet

/- The accessors read what follows the extended header. -/
structure DecodedAfterHeader (pkt : Packet) : Prop where
  data : pkt.dataOffset = pkt.extHeaderSize
  chunkCnt :
    pkt.HasCount →
      pkt.getChunkCnt =
        (pkt.payload pkt.extHeaderSize.toNat).toNat
  hashAt :
    ∀ n, pkt.HasHash n → pkt.hashOffset n = pkt.groupOffset n
  hash :
    ∀ n, pkt.HasHash n →
      pkt.getHash n =
        binary2hex
          (fun i =>
            pkt.payload ((pkt.groupOffset n).toNat + i))
          sha1HashSize

/-
  The data length leaves room for the extended header once
  more: in front of one hash, and in front of the count and
  all the hashes of a WHOHAS or IHAVE.
-/
structure ExtHeaderFits (pkt : Packet) : Prop where
  data :
    pkt.extHeaderSize = 0 ∨
      pkt.extHeaderSize + sha1HashSize ≤ pkt.getDataLen
  hashes :
    pkt.HasCount →
      pkt.extHeaderSize + 4 +
          sha1HashSize *
            (pkt.payload pkt.extHeaderSize.toNat).toNat ≤
        pkt.getDataLen

end BtPeer

------------------------------------------------------------
-- When The Clamp Is Inert
------------------------------------------------------------

namespace BtPeer

variable {pkt : Packet}

theorem countSize_of_hasCount
    (hCount : pkt.HasCount) :
    pkt.countSize = 4 := by
  have hNotGet : pkt.type ≠ PacketType.get.code := by
    intro hGet
    rcases hCount with hType | hType <;>
      simp [hGet] at hType
  simp [Packet.countSize, hNotGet]

theorem countSize_of_get
    (hGet : PacketType.ofCode pkt.type = some .get) :
    pkt.countSize = 0 := by
  simp [Packet.countSize, PacketType.code_of_ofCode hGet]

theorem extHeaderSize_nonneg
    (hValid : validPacket pkt = true) :
    0 ≤ pkt.extHeaderSize := by
  have hHeader := validPacket_header hValid
  unfold Packet.extHeaderSize
  omega

/- `GET_DATA` is right exactly when its clamp is inert. -/
theorem dataOffset_eq_iff :
    pkt.dataOffset = pkt.extHeaderSize ↔
      pkt.extHeaderSize ≤ pkt.maxOffset := by
  unfold Packet.dataOffset
  omega

/- `GET_HASH` is right exactly when its clamp is inert. -/
theorem hashOffset_eq_iff
    (n : Nat) :
    pkt.hashOffset n = pkt.groupOffset n ↔
      pkt.groupOffset n ≤ pkt.maxOffset := by
  unfold Packet.hashOffset Packet.groupOffset
  omega

theorem extHeaderSize_le_maxOffset
    (hValid : validPacket pkt = true) :
    pkt.extHeaderSize ≤ pkt.maxOffset ↔
      pkt.extHeaderSize = 0 ∨
        pkt.extHeaderSize + sha1HashSize ≤
          pkt.getDataLen := by
  have hNonneg := extHeaderSize_nonneg hValid
  simp only [Packet.maxOffset, sha1HashSize_eq]
  omega

theorem getChunkCnt_of_dataOffset
    (hData : pkt.dataOffset = pkt.extHeaderSize) :
    pkt.getChunkCnt =
      (pkt.payload pkt.extHeaderSize.toNat).toNat := by
  simp [Packet.getChunkCnt, hData]

/- All hashes of a WHOHAS or IHAVE are read in place. -/
theorem groupOffset_le_maxOffset_of_hasCount
    (hValid : validPacket pkt = true)
    (hCount : pkt.HasCount) :
    (∀ n, n < pkt.getChunkCnt →
        pkt.groupOffset n ≤ pkt.maxOffset) ↔
      pkt.extHeaderSize + 4 +
          sha1HashSize * pkt.getChunkCnt ≤
        pkt.getDataLen := by
  have hRoom := validPacket_hashes hValid hCount
  have hNonneg := extHeaderSize_nonneg hValid
  simp only [Packet.groupOffset, Packet.maxOffset,
    countSize_of_hasCount hCount, sha1HashSize_eq] at hRoom ⊢
  constructor
  · intro hAll
    have hLast := hAll (pkt.getChunkCnt - 1) (by omega)
    omega
  · intro hFits n hn
    omega

/-
  For every accepted packet, the accessors read what follows
  the extended header if and only if the data length leaves
  room for the extended header once more.
-/
theorem decodedAfterHeader_iff
    (pkt : Packet)
    (hValid : validPacket pkt = true) :
    DecodedAfterHeader pkt ↔ ExtHeaderFits pkt := by
  constructor
  · intro hDecoded
    have hClamp := dataOffset_eq_iff.mp hDecoded.data
    refine
      ⟨(extHeaderSize_le_maxOffset hValid).mp hClamp, ?_⟩
    intro hCount
    rw [← hDecoded.chunkCnt hCount]
    apply
      (groupOffset_le_maxOffset_of_hasCount
        hValid hCount).mp
    intro n hn
    exact
      (hashOffset_eq_iff n).mp
        (hDecoded.hashAt n (Or.inl ⟨hCount, hn⟩))
  · intro hFits
    have hData : pkt.dataOffset = pkt.extHeaderSize :=
      dataOffset_eq_iff.mpr
        ((extHeaderSize_le_maxOffset hValid).mpr hFits.data)
    have hCnt := getChunkCnt_of_dataOffset hData
    have hHashAt :
        ∀ n, pkt.HasHash n →
          pkt.hashOffset n = pkt.groupOffset n := by
      intro n hHash
      apply (hashOffset_eq_iff n).mpr
      rcases hHash with ⟨hCount, hn⟩ | ⟨hGet, rfl⟩
      · have hRoom := hFits.hashes hCount
        rw [← hCnt] at hRoom
        exact
          (groupOffset_le_maxOffset_of_hasCount
            hValid hCount).mpr hRoom n hn
      · have hClamp := dataOffset_eq_iff.mp hData
        simpa [Packet.groupOffset, countSize_of_get hGet]
          using hClamp
    refine ⟨hData, fun _ => hCnt, hHashAt, ?_⟩
    intro n hHash
    rw [Packet.getHash, hHashAt n hHash]

/- A GET with 4 bytes of extended header and one hash. -/
def extHeaderGet : Packet where
  magic := magicNumber
  version := versionNumber
  type := PacketType.get.code
  hdrLen := 20
  pktLen := 40
  seq := 0
  ack := 0
  payload := fun i => BitVec.ofNat 8 i

/-
  The hash of this accepted GET is read 4 bytes early, from
  inside the extended header.
-/
theorem extHeader_get_misread :
    validPacket extHeaderGet = true ∧
      extHeaderGet.dataOffset = 0 ∧
      extHeaderGet.extHeaderSize = 4 ∧
      extHeaderGet.getHash 0 ≠
        binary2hex (fun i => extHeaderGet.payload (4 + i))
          sha1HashSize ∧
      ¬ DecodedAfterHeader extHeaderGet := by
  refine ⟨by decide, by decide, by decide, by decide, ?_⟩
  intro hDecoded
  exact absurd hDecoded.data (by decide)

/- A WHOHAS with 4 bytes of extended header and room to spare. -/
def extHeaderWhohas : Packet where
  magic := magicNumber
  version := versionNumber
  type := PacketType.whohas.code
  hdrLen := 20
  pktLen := 48
  seq := 0
  ack := 0
  payload := fun i => if i = 4 then 1 else 0

theorem extHeaderWhohas_decoded :
    validPacket extHeaderWhohas = true ∧
      DecodedAfterHeader extHeaderWhohas := by
  have hValid : validPacket extHeaderWhohas = true := by
    decide
  refine
    ⟨hValid, (decodedAfterHeader_iff _ hValid).mpr ⟨?_, ?_⟩⟩
  · right
    decide
  · intro _
    decide

end BtPeer
