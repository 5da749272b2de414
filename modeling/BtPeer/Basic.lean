import BtPeer.Library.Memory
import Mathlib.Algebra.Ring.Int.Defs
import Mathlib.Algebra.Ring.Nat
import Mathlib.Data.Int.Basic
import Mathlib.Logic.Function.Basic

/-
  Machine types and the constants of the headers.

  `uint8_t`, `uint16_t` and `uint32_t` are bit vectors, so
  their arithmetic wraps as the code's does. A C string is
  the list of its characters before the terminator, each of
  code below 256.

  Key definitions include:
    * `Byte`, `Half`, `Word`, `CString`
    * `toInt32`, `wordMax`, `wordMin`
    * `btChunkSize`, `payloadSize`, `lastSeq`
-/

------------------------------------------------------------
-- Machine Types
------------------------------------------------------------

namespace BtPeer

abbrev Byte := BitVec 8

abbrev Half := BitVec 16

abbrev Word := BitVec 32

abbrev CString := List Char

/- The value of an `int` expression that may overflow. -/
def toInt32 (x : Int) : Int :=
  Int.bmod x 4294967296

/- An `int` in range is its own value. -/
theorem toInt32_eq_self
    {x : Int}
    (hLow : -2147483648 ≤ x)
    (hHigh : x < 2147483648) :
    toInt32 x = x := by
  unfold toInt32
  exact Int.bmod_eq_of_le (by omega) (by omega)

/- `MAX` and `MIN` of util.h on unsigned words. -/
def wordMax (a b : Word) : Word :=
  if b < a then a else b

def wordMin (a b : Word) : Word :=
  if a < b then a else b

@[simp] theorem toNat_wordMax
    (a b : Word) :
    (wordMax a b).toNat = max a.toNat b.toNat := by
  unfold wordMax
  split <;> bv_omega

@[simp] theorem toNat_wordMin
    (a b : Word) :
    (wordMin a b).toNat = min a.toNat b.toNat := by
  unfold wordMin
  split <;> bv_omega

end BtPeer

------------------------------------------------------------
-- Constants
------------------------------------------------------------

namespace BtPeer

/- `BT_CHUNK_SIZE` of chunk.h. -/
def btChunkSize : Nat := 512 * 1024

/- `PAYLOAD_SIZE` of packet.h. -/
def payloadSize : Nat := 1024

/- `BT_CHUNK_SIZE / PAYLOAD_SIZE`, the last segment number. -/
def lastSeq : Nat := btChunkSize / payloadSize

/- `PACKET_SIZE` and `HEADER_SIZE` of packet.h. -/
def packetSize : Nat := 1500

def headerSize : Nat := 16

/- `MAX_PAYLOAD_SIZE` of packet.h. -/
def maxPayloadSize : Nat := packetSize - headerSize

/- `SHA1_HASH_SIZE` and `SHA1_HASH_STR_SIZE` of sha.h. -/
def sha1HashSize : Nat := 20

def sha1HashStrSize : Nat := sha1HashSize * 2

/- `HASH_NUM_PKT` of packet.h. -/
def hashNumPkt : Nat := (maxPayloadSize - 4) / sha1HashSize

/- `MAX_CHUNK_NUM` of chunklist.h. -/
def maxChunkNum : Nat := 4096

/- `BT_FILENAME_LEN` of bt_parse.h. -/
def btFilenameLen : Nat := 255

/- `DEFAULT_TIMEOUT` of util.h, in milliseconds. -/
def defaultTimeout : Nat := 5 * 1000

/- `MAX_TIMEOUT_CNT` of peer_server.h. -/
def maxTimeoutCnt : Int := 5

@[simp] theorem btChunkSize_eq : btChunkSize = 524288 := rfl

@[simp] theorem payloadSize_eq : payloadSize = 1024 := rfl

@[simp] theorem lastSeq_eq : lastSeq = 512 := rfl

@[simp] theorem packetSize_eq : packetSize = 1500 := rfl

@[simp] theorem headerSize_eq : headerSize = 16 := rfl

@[simp] theorem maxPayloadSize_eq : maxPayloadSize = 1484 := rfl

@[simp] theorem sha1HashSize_eq : sha1HashSize = 20 := rfl

@[simp] theorem sha1HashStrSize_eq : sha1HashStrSize = 40 := rfl

@[simp] theorem hashNumPkt_eq : hashNumPkt = 74 := rfl

@[simp] theorem maxChunkNum_eq : maxChunkNum = 4096 := rfl

@[simp] theorem btFilenameLen_eq : btFilenameLen = 255 := rfl

@[simp] theorem defaultTimeout_eq : defaultTimeout = 5000 := rfl

@[simp] theorem maxTimeoutCnt_eq : maxTimeoutCnt = 5 := rfl

end BtPeer
