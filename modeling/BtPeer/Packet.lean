import BtPeer.Chunk

/-
  Packets and the accessor macros of packet.h, and
  `valid_packet` of packet.c.

  A packet is in host byte order, as `DECODE_PKT` leaves it
  and before `ENCODE_PKT`. The macros compute in `int`, so
  lengths and offsets are integers.

  Key definitions include:
    * `Packet`
    * `Packet.getData`
    * `Packet.getChunkCnt`
    * `Packet.getHash`
    * `validPacket`

  Key theorems include:
    * `validPacket_header`
    * `validPacket_hashes`
-/

------------------------------------------------------------
-- Packets
------------------------------------------------------------

namespace BtPeer

inductive PacketType where
  | whohas
  | ihave
  | get
  | data
  | ack
  | denied
deriving DecidableEq, Repr

namespace PacketType

/- The values of `enum packet_type`. -/
def code : PacketType → Byte
| .whohas => 0
| .ihave => 1
| .get => 2
| .data => 3
| .ack => 4
| .denied => 5

/- The type of a received `type` byte, if it is one. -/
def ofCode (b : Byte) : Option PacketType :=
  [whohas, ihave, get, data, ack, denied].find?
    (fun t => t.code = b)

@[simp] theorem ofCode_code
    (t : PacketType) :
    ofCode t.code = some t := by
  cases t <;> rfl

theorem code_of_ofCode
    {b : Byte}
    {t : PacketType}
    (hCode : ofCode b = some t) :
    t.code = b := by
  simpa using List.find?_some hCode

end PacketType

/- `packet_t`; the payload array has `maxPayloadSize` bytes. -/
structure Packet where
  magic : Half
  version : Byte
  type : Byte
  hdrLen : Half
  pktLen : Half
  seq : Word
  ack : Word
  payload : Nat → Byte

end BtPeer

------------------------------------------------------------
-- Accessor Macros
------------------------------------------------------------

namespace BtPeer

namespace Packet

/- `GET_DATA_LEN` -/
def getDataLen (pkt : Packet) : Int :=
  pkt.pktLen.toNat - pkt.hdrLen.toNat

/- `MAX_OFFSET` -/
def maxOffset (pkt : Packet) : Int :=
  max (pkt.getDataLen - sha1HashSize) 0

/- `EXT_HEADER_SIZE` -/
def extHeaderSize (pkt : Packet) : Int :=
  pkt.hdrLen.toNat - headerSize

/- Where `GET_DATA` points and `GET_CHUNK_CNT` reads. -/
def dataOffset (pkt : Packet) : Int :=
  min pkt.maxOffset pkt.extHeaderSize

/- `GET_DATA`: the payload from the data offset on. -/
def getData (pkt : Packet) : Nat → Byte :=
  fun i => pkt.payload (pkt.dataOffset.toNat + i)

/- `GET_CHUNK_CNT` -/
def getChunkCnt (pkt : Packet) : Nat :=
  (pkt.payload pkt.dataOffset.toNat).toNat

/- The bytes in front of the hashes, 4 for the count. -/
def countSize (pkt : Packet) : Int :=
  if pkt.type = PacketType.get.code then 0 else 4

/- `HASH_OFFSET` -/
def hashOffset
    (pkt : Packet)
    (n : Nat) : Int :=
  min pkt.maxOffset
    (pkt.extHeaderSize + pkt.countSize + n * sha1HashSize)

/- `GET_HASH` -/
def getHash
    (pkt : Packet)
    (n : Nat) : CString :=
  binary2hex
    (fun i => pkt.payload ((pkt.hashOffset n).toNat + i))
    sha1HashSize

/- `SET_CHUNK_CNT` -/
def setChunkCnt
    (pkt : Packet)
    (cnt : Nat) : Packet :=
  { pkt with
    payload :=
      Function.update pkt.payload pkt.extHeaderSize.toNat
        (BitVec.ofNat 8 cnt) }

/- `SET_HASH` -/
def setHash
    (pkt : Packet)
    (n : Nat)
    (hash : CString) : Packet :=
  { pkt with
    payload :=
      ByteMemory.memcpy pkt.payload
        (pkt.extHeaderSize + pkt.countSize +
          n * sha1HashSize).toNat
        (hex2binary hash) sha1HashSize }

end Packet

end BtPeer

------------------------------------------------------------
-- Packet Validation
------------------------------------------------------------

namespace BtPeer

/- `MAGIC` and `VERSION` of packet.h. -/
def magicNumber : Half := 15441

def versionNumber : Byte := 1

/- `valid_packet` -/
def validPacket (pkt : Packet) : Bool :=
  if pkt.magic ≠ magicNumber then false
  else if pkt.version ≠ versionNumber then false
  else if pkt.pktLen < pkt.hdrLen ∨
      pkt.hdrLen.toNat < headerSize then
    false
  else if packetSize < pkt.pktLen.toNat then false
  else
    match PacketType.ofCode pkt.type with
    | some .whohas | some .ihave =>
        if pkt.getDataLen < 4 then false
        else
          ! (pkt.getChunkCnt = 0 ||
            (pkt.getDataLen - 4) / sha1HashSize <
              pkt.getChunkCnt)
    | some .get => ! (pkt.getDataLen < sha1HashSize)
    | _ => true

/- The lengths of an accepted packet are consistent. -/
theorem validPacket_header
    {pkt : Packet}
    (hValid : validPacket pkt = true) :
    headerSize ≤ pkt.hdrLen.toNat ∧
      pkt.hdrLen.toNat ≤ pkt.pktLen.toNat ∧
      pkt.pktLen.toNat ≤ packetSize := by
  unfold validPacket at hValid
  split at hValid
  · simp at hValid
  · split at hValid
    · simp at hValid
    · split at hValid
      · simp at hValid
      · split at hValid
        · simp at hValid
        · rename_i hLengths hSize
          rw [BitVec.lt_def] at hLengths
          omega

/- An accepted WHOHAS or IHAVE has room for its hashes. -/
theorem validPacket_hashes
    {pkt : Packet}
    (hValid : validPacket pkt = true)
    (hType :
      PacketType.ofCode pkt.type = some .whohas ∨
        PacketType.ofCode pkt.type = some .ihave) :
    0 < pkt.getChunkCnt ∧
      4 + sha1HashSize * pkt.getChunkCnt ≤
        pkt.getDataLen := by
  unfold validPacket at hValid
  rcases hType with hType | hType
  all_goals
    simp only [hType, ite_eq_iff, Bool.false_eq_true, and_false,
      false_or, Bool.not_eq_true', Bool.or_eq_false_iff,
      decide_eq_false_iff_not] at hValid
    rcases hValid with ⟨_, _, _, _, hLen, hCnt, hRoom⟩
    simp only [sha1HashSize_eq] at hRoom ⊢
    omega

/- An accepted GET has room for its hash. -/
theorem validPacket_get
    {pkt : Packet}
    (hValid : validPacket pkt = true)
    (hType : PacketType.ofCode pkt.type = some .get) :
    sha1HashSize ≤ pkt.getDataLen := by
  unfold validPacket at hValid
  simp only [hType, ite_eq_iff, Bool.false_eq_true, and_false,
    false_or, Bool.not_eq_true',
    decide_eq_false_iff_not] at hValid
  omega

end BtPeer
