import BtPeer.Basic

/-
  SHA-1 as sha.c computes it: a context that takes the
  message in pieces, on a little-endian machine
  (`WORDS_BIGENDIAN` and `SHA1_FAST_COPY` are not defined).

  A pointer into memory is the function that gives the bytes
  behind it. A context can only be built with fewer than 64
  bytes waiting in its buffer, as every function of sha.c
  leaves it.

  Key definitions include:
    * `Sha1Context`
    * `sha1Guts`
    * `sha1Update`
    * `sha1Final`
    * `shahash`
-/

------------------------------------------------------------
-- Words
------------------------------------------------------------

namespace BtPeer

/- `ROTL` and `ROTR` -/
def rotl (x : Word) (n : Nat) : Word :=
  x <<< n ||| x >>> (32 - n)

def rotr (x : Word) (n : Nat) : Word :=
  x >>> n ||| x <<< (32 - n)

/- `BYTESWAP` -/
def byteswap (x : Word) : Word :=
  (rotr x 8 &&& 0xff00ff00) ||| (rotl x 8 &&& 0x00ff00ff)

/- `_byteswap64` -/
def byteswap64 (x : BitVec 64) : BitVec 64 :=
  let a : Word := (x >>> 32).setWidth 32
  let b : Word := x.setWidth 32
  (byteswap b).setWidth 64 <<< 32 |||
    (byteswap a).setWidth 64

/- Word `i` of the bytes of `buffer`, as the machine loads it. -/
def loadWord
    (bytes : Nat → Byte)
    (i : Nat) : Word :=
  bytes (4 * i + 3) ++ bytes (4 * i + 2) ++
    bytes (4 * i + 1) ++ bytes (4 * i)

/- The bytes of a `uint64_t` as the machine stores it. -/
def storeWord64
    (x : BitVec 64)
    (i : Nat) : Byte :=
  (x >>> (8 * i)).setWidth 8

end BtPeer

------------------------------------------------------------
-- The Context
------------------------------------------------------------

namespace BtPeer

/- The five words of `hash`, or the variables of `SHA1Guts`. -/
@[ext] structure Sha1Words where
  a : Word
  b : Word
  c : Word
  d : Word
  e : Word
deriving DecidableEq, Repr

/- `SHA1Context`; `buffer` is given by its bytes. -/
structure Sha1Context where
  totalLength : BitVec 64
  hash : Sha1Words
  bufferLength : Word
  buffer : Nat → Byte
  room : bufferLength.toNat < 64

/- `SHA1Init`; the buffer is not initialized. -/
def sha1Init (buffer : Nat → Byte) : Sha1Context where
  totalLength := 0
  hash :=
    { a := 0x67452301
      b := 0xefcdab89
      c := 0x98badcfe
      d := 0x10325476
      e := 0xc3d2e1f0 }
  bufferLength := 0
  buffer := buffer
  room := by decide

end BtPeer

------------------------------------------------------------
-- One Block
------------------------------------------------------------

namespace BtPeer

/- `F_0_19`, `F_20_39`, `F_40_59` and `F_60_79` -/
def f0to19 (x y z : Word) : Word :=
  z ^^^ (x &&& (y ^^^ z))

def f20to39 (x y z : Word) : Word :=
  x ^^^ y ^^^ z

def f40to59 (x y z : Word) : Word :=
  (x &&& (y ||| z)) ||| (y &&& z)

def f60to79 (x y z : Word) : Word :=
  x ^^^ y ^^^ z

/- `DO_ROUND` with the word `w`. -/
def doRound
    (f : Word → Word → Word → Word)
    (k w : Word)
    (s : Sha1Words) : Sha1Words :=
  let temp := rotl s.a 5 + f s.b s.c s.d + s.e + w + k
  { a := temp
    b := s.a
    c := rotl s.b 30
    d := s.c
    e := s.d }

/- `n` rounds with one function, on the words from `t` on. -/
def doRounds
    (f : Word → Word → Word → Word)
    (k : Word)
    (buf : Nat → Word) :
    Nat → Nat → Sha1Words → Sha1Words
| 0, _, s => s
| n + 1, t, s =>
    doRounds f k buf n (t + 1) (doRound f k (buf t) s)

/-
  The second loop of `SHA1Guts`, which fills `buf` from
  word `16 + i` on: `W3`, `W8`, `W14` and `W16` are at the
  words `13 + i`, `8 + i`, `2 + i` and `i`.
-/
def expandLoop : Nat → Nat → (Nat → Word) → Nat → Word
| 0, _, buf => buf
| n + 1, i, buf =>
    expandLoop n (i + 1)
      (Function.update buf (16 + i)
        (rotl
          (buf (13 + i) ^^^ buf (8 + i) ^^^ buf (2 + i) ^^^
            buf i)
          1))

/- `SHA1Guts` on the block `cbuf`. -/
def sha1Guts
    (hash : Sha1Words)
    (cbuf : Nat → Word) : Sha1Words :=
  let buf := expandLoop 64 0 (fun i => byteswap (cbuf i))
  let s := doRounds f0to19 0x5a827999 buf 20 0 hash
  let s := doRounds f20to39 0x6ed9eba1 buf 20 20 s
  let s := doRounds f40to59 0x8f1bbcdc buf 20 40 s
  let s := doRounds f60to79 0xca62c1d6 buf 20 60 s
  { a := hash.a + s.a
    b := hash.b + s.b
    c := hash.c + s.c
    d := hash.d + s.d
    e := hash.e + s.e }

end BtPeer

------------------------------------------------------------
-- Pieces Of A Message
------------------------------------------------------------

namespace BtPeer

/- The `bytesToCopy` of one pass of `SHA1Update`. -/
def bytesToCopy
    (sc : Sha1Context)
    (len : Word) : Word :=
  wordMin (64 - sc.bufferLength) len

/- What is copied fits into the buffer. -/
theorem bytesToCopy_fits
    (sc : Sha1Context)
    (len : Word) :
    sc.bufferLength.toNat + (bytesToCopy sc len).toNat ≤ 64 := by
  have hRoom := sc.room
  unfold bytesToCopy
  rw [toNat_wordMin]
  bv_omega

/- One pass of the loop of `SHA1Update`. -/
def updatePass
    (sc : Sha1Context)
    (data : Nat → Byte)
    (len : Word) : Sha1Context :=
  let copied := bytesToCopy sc len
  let buffer :=
    ByteMemory.memcpy sc.buffer sc.bufferLength.toNat data
      copied.toNat
  let totalLength :=
    sc.totalLength + copied.setWidth 64 * 8
  if hFull : sc.bufferLength + copied = 64 then
    { totalLength := totalLength
      hash := sha1Guts sc.hash (loadWord buffer)
      bufferLength := 0
      buffer := buffer
      room := by decide }
  else
    { totalLength := totalLength
      hash := sc.hash
      bufferLength := sc.bufferLength + copied
      buffer := buffer
      room := by
        have hFits := bytesToCopy_fits sc len
        have hNot :
            (sc.bufferLength + copied).toNat ≠ 64 :=
          fun h => hFull (BitVec.eq_of_toNat_eq h)
        dsimp only [copied] at hNot ⊢
        bv_omega }

/-
  The loop of `SHA1Update`. Every pass takes a byte, so `len`
  passes are enough.
-/
def updateLoop :
    Nat → Sha1Context → (Nat → Byte) → Word → Sha1Context
| 0, sc, _, _ => sc
| k + 1, sc, data, len =>
    if len = 0 then sc
    else
      let copied := bytesToCopy sc len
      updateLoop k (updatePass sc data len)
        (fun i => data (copied.toNat + i)) (len - copied)

/- `SHA1Update` -/
def sha1Update
    (sc : Sha1Context)
    (data : Nat → Byte)
    (len : Word) : Sha1Context :=
  updateLoop len.toNat sc data len

/- The array `padding`. -/
def paddingBytes : Nat → Byte :=
  fun i => if i = 0 then 0x80 else 0

/- The `bytesToPad` of `SHA1Final`. -/
def bytesToPad (sc : Sha1Context) : Word :=
  let pad := 120 - sc.bufferLength
  if 64 < pad then pad - 64 else pad

/- The word `hash[i]`. -/
def Sha1Words.get
    (s : Sha1Words) : Nat → Word
| 0 => s.a
| 1 => s.b
| 2 => s.c
| 3 => s.d
| _ => s.e

/- The last loop of `SHA1Final`, which writes out the words. -/
def writeHash (s : Sha1Words) : Nat → Byte :=
  fun i => (s.get (i / 4) >>> (24 - 8 * (i % 4))).setWidth 8

/- `SHA1Final`: the bytes it writes to `hash`. -/
def sha1Final (sc : Sha1Context) : Nat → Byte :=
  let lengthPad := byteswap64 sc.totalLength
  let sc := sha1Update sc paddingBytes (bytesToPad sc)
  let sc := sha1Update sc (storeWord64 lengthPad) 8
  writeHash sc.hash

/- `shahash` on the `len` bytes at `str`. -/
def shahash
    (buffer : Nat → Byte)
    (str : Nat → Byte)
    (len : Word) : Nat → Byte :=
  sha1Final (sha1Update (sha1Init buffer) str len)

end BtPeer
