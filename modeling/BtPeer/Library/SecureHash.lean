import BtPeer.Library.Blocks

/-
  The secure hash algorithm SHA-1 as a function of the whole
  message: padding, message schedule, compression, digest.

  Nothing is optimized here. A schedule is defined by its
  recurrence and the functions of the rounds by their truth
  tables, so this is what an implementation is compared with.

  Key definitions include:
    * `SecureHash.padded`
    * `SecureHash.schedule`
    * `SecureHash.compress`
    * `SecureHash.digest`

  Key theorems include:
    * `SecureHash.digest_length`
-/

------------------------------------------------------------
-- Rounds
------------------------------------------------------------

namespace SecureHash

/- Five words: a chaining value, or the working variables. -/
@[ext] structure Chain where
  a : BitVec 32
  b : BitVec 32
  c : BitVec 32
  d : BitVec 32
  e : BitVec 32
deriving DecidableEq

/- The chaining value that every message starts from. -/
def initial : Chain where
  a := 0x67452301
  b := 0xefcdab89
  c := 0x98badcfe
  d := 0x10325476
  e := 0xc3d2e1f0

def choice (x y z : BitVec 32) : BitVec 32 :=
  (x &&& y) ^^^ (~~~x &&& z)

def parity (x y z : BitVec 32) : BitVec 32 :=
  x ^^^ y ^^^ z

def majority (x y z : BitVec 32) : BitVec 32 :=
  (x &&& y) ^^^ (x &&& z) ^^^ (y &&& z)

/- The function and the constant of round `t`. -/
def logical
    (t : Nat) : BitVec 32 → BitVec 32 → BitVec 32 → BitVec 32 :=
  if t < 20 then choice
  else if t < 40 then parity
  else if t < 60 then majority
  else parity

def constant (t : Nat) : BitVec 32 :=
  if t < 20 then 0x5a827999
  else if t < 40 then 0x6ed9eba1
  else if t < 60 then 0x8f1bbcdc
  else 0xca62c1d6

/- Round `t` with the word `w` of the schedule. -/
def round
    (t : Nat)
    (w : BitVec 32)
    (s : Chain) : Chain where
  a :=
    s.a.rotateLeft 5 + logical t s.b s.c s.d + s.e +
      constant t + w
  b := s.a
  c := s.b.rotateLeft 30
  d := s.c
  e := s.d

end SecureHash

------------------------------------------------------------
-- Compression
------------------------------------------------------------

namespace SecureHash

/- The message schedule of a block of sixteen words. -/
def schedule (m : Nat → BitVec 32) (t : Nat) : BitVec 32 :=
  if t < 16 then m t
  else
    (schedule m (t - 3) ^^^ schedule m (t - 8) ^^^
      schedule m (t - 14) ^^^
        schedule m (t - 16)).rotateLeft 1

theorem schedule_of_lt
    (m : Nat → BitVec 32)
    {t : Nat}
    (ht : t < 16) :
    schedule m t = m t := by
  rw [schedule, if_pos ht]

theorem schedule_of_ge
    (m : Nat → BitVec 32)
    {t : Nat}
    (ht : 16 ≤ t) :
    schedule m t =
      (schedule m (t - 3) ^^^ schedule m (t - 8) ^^^
        schedule m (t - 14) ^^^
          schedule m (t - 16)).rotateLeft 1 := by
  rw [schedule, if_neg (Nat.not_lt.mpr ht)]

/- The working variables before round `t`. -/
def rounds
    (m : Nat → BitVec 32)
    (h : Chain) : Nat → Chain
| 0 => h
| t + 1 => round t (schedule m t) (rounds m h t)

/- Word `i` of a block, its first byte the highest. -/
def blockWord
    (block : List (BitVec 8))
    (i : Nat) : BitVec 32 :=
  block.getD (4 * i) 0 ++ block.getD (4 * i + 1) 0 ++
    block.getD (4 * i + 2) 0 ++ block.getD (4 * i + 3) 0

/- The chaining value after one block of 64 bytes. -/
def compress
    (h : Chain)
    (block : List (BitVec 8)) : Chain :=
  let s := rounds (blockWord block) h 80
  { a := h.a + s.a
    b := h.b + s.b
    c := h.c + s.c
    d := h.d + s.d
    e := h.e + s.e }

end SecureHash

------------------------------------------------------------
-- Padding
------------------------------------------------------------

namespace SecureHash

/- The zero bytes that fill a message of this length up. -/
def zeroBytes (len : Nat) : Nat :=
  (119 - len % 64) % 64

/- The bytes of a word, the highest first. -/
def bytesOf (n : Nat) (w : BitVec (8 * n)) : List (BitVec 8) :=
  (List.range n).map
    (fun i => (w >>> (8 * (n - 1 - i))).setWidth 8)

/- A one, the zeros, and the length of the message in bits. -/
def padding (len : Nat) : List (BitVec 8) :=
  0x80 :: (List.replicate (zeroBytes len) 0 ++
    bytesOf 8 (BitVec.ofNat 64 (8 * len)))

def padded (message : List (BitVec 8)) : List (BitVec 8) :=
  message ++ padding message.length

theorem bytesOf_length
    (n : Nat)
    (w : BitVec (8 * n)) :
    (bytesOf n w).length = n := by
  simp [bytesOf]

/- The digest of a message. -/
def digest (message : List (BitVec 8)) : List (BitVec 8) :=
  let h :=
    (BlockStream.absorb 64 compress initial
      (padded message)).1
  bytesOf 4 h.a ++ bytesOf 4 h.b ++ bytesOf 4 h.c ++
    bytesOf 4 h.d ++ bytesOf 4 h.e

theorem digest_length
    (message : List (BitVec 8)) :
    (digest message).length = 20 := by
  simp only [digest, List.length_append, bytesOf_length]

end SecureHash
