import BtPeer.Library.SecureHash
import BtPeer.Sha
import Mathlib.Tactic.IntervalCases

/-
  What sha.c computes is SHA-1: however a message is cut into
  the pieces given to `SHA1Update`, `SHA1Final` writes the
  digest of the whole message.

  Key definitions include:
    * `Sha1Words.chain`
    * `Sha1Context.stream`

  Key theorems include:
    * `sha1Guts_chain`
    * `sha1Update_stream`
    * `sha1Final_digest`
    * `sha1_pieces`
    * `shahash_digest`
-/

------------------------------------------------------------
-- Bits And Bytes
------------------------------------------------------------

namespace BtPeer

theorem rotl_eq
    (x : Word)
    {n : Nat}
    (hn : n < 32) :
    rotl x n = x.rotateLeft n := by
  rw [BitVec.rotateLeft_def, Nat.mod_eq_of_lt hn]
  rfl

theorem f0to19_eq
    (x y z : Word) :
    f0to19 x y z = SecureHash.choice x y z := by
  unfold f0to19 SecureHash.choice
  apply BitVec.eq_of_getLsbD_eq
  intro i hi
  simp only [BitVec.getLsbD_xor, BitVec.getLsbD_and,
    BitVec.getLsbD_not, hi, decide_true, Bool.true_and]
  cases x.getLsbD i <;> cases y.getLsbD i <;>
    cases z.getLsbD i <;> rfl

theorem f40to59_eq
    (x y z : Word) :
    f40to59 x y z = SecureHash.majority x y z := by
  unfold f40to59 SecureHash.majority
  apply BitVec.eq_of_getLsbD_eq
  intro i _
  simp only [BitVec.getLsbD_xor, BitVec.getLsbD_and,
    BitVec.getLsbD_or]
  cases x.getLsbD i <;> cases y.getLsbD i <;>
    cases z.getLsbD i <;> rfl

/- `BYTESWAP` reverses the four bytes of a word. -/
theorem byteswap_bit
    (x : Word)
    {i j : Nat}
    (hi : i < 4)
    (hj : j < 8) :
    (byteswap x).getLsbD (8 * i + j) =
      x.getLsbD (8 * (3 - i) + j) := by
  unfold byteswap rotl rotr
  simp only [BitVec.getLsbD_or, BitVec.getLsbD_and,
    BitVec.getLsbD_shiftLeft, BitVec.getLsbD_ushiftRight]
  interval_cases i <;> interval_cases j <;> simp

theorem byteswap_append
    (p q r s : Byte) :
    byteswap (p ++ q ++ r ++ s) = s ++ r ++ q ++ p := by
  unfold byteswap rotl rotr
  apply BitVec.eq_of_getLsbD_eq
  intro i hi
  simp only [BitVec.getLsbD_or, BitVec.getLsbD_and,
    BitVec.getLsbD_append, BitVec.getLsbD_shiftLeft,
    BitVec.getLsbD_ushiftRight]
  interval_cases i <;> simp

/- A swapped `uint64_t` is stored with its high byte first. -/
theorem storeWord64_byteswap64
    (x : BitVec 64)
    {i : Nat}
    (hi : i < 8) :
    storeWord64 (byteswap64 x) i =
      (x >>> (8 * (8 - 1 - i))).setWidth 8 := by
  apply BitVec.eq_of_getLsbD_eq
  intro j hj
  simp only [storeWord64, byteswap64, BitVec.getLsbD_setWidth,
    BitVec.getLsbD_ushiftRight, BitVec.getLsbD_or,
    BitVec.getLsbD_shiftLeft]
  by_cases hLow : i < 4
  · -- the low half holds the swapped high half of `x`
    have hBit :=
      byteswap_bit ((x >>> 32).setWidth 32) hLow hj
    have hFrom : 8 * i + j < 32 := by omega
    have hTo : 8 * (3 - i) + j < 32 := by omega
    have hIndex :
        32 + (8 * (3 - i) + j) = 8 * (7 - i) + j := by omega
    rw [hBit]
    simp [hj, hFrom, hTo, hIndex]
    omega
  · have hBit :=
      @byteswap_bit (x.setWidth 32) (i - 4) j (by omega) hj
    have hFrom : 8 * i + j - 32 = 8 * (i - 4) + j := by omega
    have hHigh : ¬ 8 * i + j < 32 := by omega
    have hIndex :
        8 * (3 - (i - 4)) + j = 8 * (7 - i) + j := by omega
    have hTo : 8 * (7 - i) + j < 32 := by omega
    have hIn : 8 * (i - 4) + j < 64 := by omega
    have hNone :
        (byteswap ((x >>> 32).setWidth 32)).getLsbD
          (8 * i + j) = false :=
      BitVec.getLsbD_of_ge _ _ (by omega)
    rw [hFrom, hBit, hIndex, hNone]
    simp [hj, hHigh, hTo, hIn]
    omega

end BtPeer

------------------------------------------------------------
-- One Block
------------------------------------------------------------

namespace BtPeer

/- The words as a chaining value. -/
def Sha1Words.chain (s : Sha1Words) : SecureHash.Chain where
  a := s.a
  b := s.b
  c := s.c
  d := s.d
  e := s.e

/- `f` and `k` are those of round `t`. -/
def RoundOf
    (f : Word → Word → Word → Word)
    (k : Word)
    (t : Nat) : Prop :=
  (∀ x y z, f x y z = SecureHash.logical t x y z) ∧
    k = SecureHash.constant t

theorem round_0to19
    {t : Nat}
    (ht : t < 20) :
    RoundOf f0to19 0x5a827999 t := by
  simp only [RoundOf, SecureHash.logical, SecureHash.constant,
    if_pos ht]
  exact ⟨f0to19_eq, trivial⟩

theorem round_20to39
    {t : Nat}
    (hLow : 20 ≤ t)
    (hHigh : t < 40) :
    RoundOf f20to39 0x6ed9eba1 t := by
  simp only [RoundOf, SecureHash.logical, SecureHash.constant,
    if_neg (Nat.not_lt.mpr hLow), if_pos hHigh]
  exact ⟨fun _ _ _ => rfl, trivial⟩

theorem round_40to59
    {t : Nat}
    (hLow : 40 ≤ t)
    (hHigh : t < 60) :
    RoundOf f40to59 0x8f1bbcdc t := by
  have hSecond : ¬ t < 20 := by omega
  simp only [RoundOf, SecureHash.logical, SecureHash.constant,
    if_neg hSecond, if_neg (Nat.not_lt.mpr hLow), if_pos hHigh]
  exact ⟨f40to59_eq, trivial⟩

theorem round_60to79
    {t : Nat}
    (hLow : 60 ≤ t) :
    RoundOf f60to79 0xca62c1d6 t := by
  have hSecond : ¬ t < 20 := by omega
  have hThird : ¬ t < 40 := by omega
  simp only [RoundOf, SecureHash.logical, SecureHash.constant,
    if_neg hSecond, if_neg hThird,
    if_neg (Nat.not_lt.mpr hLow)]
  exact ⟨fun _ _ _ => rfl, trivial⟩

theorem doRound_chain
    {f : Word → Word → Word → Word}
    {k : Word}
    {t : Nat}
    (hRound : RoundOf f k t)
    (w : Word)
    (s : Sha1Words) :
    (doRound f k w s).chain =
      SecureHash.round t w s.chain := by
  have hTemp :
      rotl s.a 5 + f s.b s.c s.d + s.e + w + k =
        s.a.rotateLeft 5 +
            SecureHash.logical t s.b s.c s.d + s.e +
          SecureHash.constant t + w := by
    rw [rotl_eq s.a (by decide), hRound.1, hRound.2]
    ac_rfl
  ext1
  · exact hTemp
  · rfl
  · exact rotl_eq s.b (by decide)
  · rfl
  · rfl

/- Rounds on words that agree with the schedule. -/
theorem doRounds_chain
    {f : Word → Word → Word → Word}
    {k : Word}
    {m buf : Nat → Word}
    {h : SecureHash.Chain}
    (n t : Nat)
    (hRound : ∀ u, t ≤ u → u < t + n → RoundOf f k u)
    (hWords :
      ∀ u, u < t + n → buf u = SecureHash.schedule m u)
    {s : Sha1Words}
    (hStart : s.chain = SecureHash.rounds m h t) :
    (doRounds f k buf n t s).chain =
      SecureHash.rounds m h (t + n) := by
  induction n generalizing t s with
  | zero => exact hStart
  | succ n ih =>
      have hNext :
          (doRound f k (buf t) s).chain =
            SecureHash.rounds m h (t + 1) := by
        rw [doRound_chain
          (hRound t (Nat.le_refl t) (by omega)), hStart,
          hWords t (by omega)]
        rfl
      rw [doRounds, show t + (n + 1) = t + 1 + n by omega]
      apply ih (t + 1)
      · intro u hLow hHigh
        exact hRound u (by omega) (by omega)
      · intro u hu
        exact hWords u (by omega)
      · exact hNext

/- The loop fills in the schedule. -/
theorem expandLoop_schedule
    {m buf : Nat → Word}
    (n i : Nat)
    (hFilled :
      ∀ t, t < 16 + i → buf t = SecureHash.schedule m t) :
    ∀ t, t < 16 + i + n →
      expandLoop n i buf t = SecureHash.schedule m t := by
  induction n generalizing i buf with
  | zero => exact hFilled
  | succ n ih =>
      intro t ht
      rw [expandLoop]
      refine ih (i + 1) ?_ t (by omega)
      intro u hu
      by_cases hNew : u = 16 + i
      · have hAt (j : Nat) (hj : j < 16) :
            buf (j + i) = SecureHash.schedule m (j + i) :=
          hFilled (j + i) (by omega)
        have hFirst : buf i = SecureHash.schedule m i :=
          hFilled i (by omega)
        rw [hNew, Function.update_self,
          SecureHash.schedule_of_ge m (by omega),
          rotl_eq _ (by decide), hAt 13 (by decide),
          hAt 8 (by decide), hAt 2 (by decide), hFirst]
        congr 4
        all_goals congr 1
        all_goals omega
      · rw [Function.update_of_ne hNew]
        exact hFilled u (by omega)

/- The words of a block that was loaded and swapped. -/
theorem byteswap_loadWord
    (bytes : Nat → Byte)
    {i : Nat}
    (hi : i < 16) :
    byteswap (loadWord bytes i) =
      SecureHash.blockWord (ByteMemory.block bytes 0 64) i := by
  have hByte (j : Nat) (hj : j < 64) :
      (ByteMemory.block bytes 0 64).getD j 0 = bytes j := by
    rw [ByteMemory.block_getD bytes 0 0 hj, Nat.zero_add]
  unfold loadWord SecureHash.blockWord
  rw [byteswap_append, hByte (4 * i) (by omega),
    hByte (4 * i + 1) (by omega),
    hByte (4 * i + 2) (by omega),
    hByte (4 * i + 3) (by omega)]

/- `SHA1Guts` compresses the block in the buffer. -/
theorem sha1Guts_chain
    (hash : Sha1Words)
    (bytes : Nat → Byte) :
    (sha1Guts hash (loadWord bytes)).chain =
      SecureHash.compress hash.chain
        (ByteMemory.block bytes 0 64) := by
  let m :=
    SecureHash.blockWord (ByteMemory.block bytes 0 64)
  let buf :=
    expandLoop 64 0 (fun i => byteswap (loadWord bytes i))
  have hWords :
      ∀ t, t < 80 → buf t = SecureHash.schedule m t := by
    apply expandLoop_schedule 64 0
    intro t ht
    rw [byteswap_loadWord bytes ht,
      SecureHash.schedule_of_lt m ht]
  let s₁ := doRounds f0to19 0x5a827999 buf 20 0 hash
  let s₂ := doRounds f20to39 0x6ed9eba1 buf 20 20 s₁
  let s₃ := doRounds f40to59 0x8f1bbcdc buf 20 40 s₂
  let s₄ := doRounds f60to79 0xca62c1d6 buf 20 60 s₃
  have h₁ : s₁.chain = SecureHash.rounds m hash.chain 20 :=
    doRounds_chain 20 0
      (fun u _ hu => round_0to19 hu)
      (fun u hu => hWords u (by omega)) rfl
  have h₂ : s₂.chain = SecureHash.rounds m hash.chain 40 :=
    doRounds_chain 20 20
      (fun u hLow hHigh => round_20to39 hLow hHigh)
      (fun u hu => hWords u (by omega)) h₁
  have h₃ : s₃.chain = SecureHash.rounds m hash.chain 60 :=
    doRounds_chain 20 40
      (fun u hLow hHigh => round_40to59 hLow hHigh)
      (fun u hu => hWords u (by omega)) h₂
  have h₄ : s₄.chain = SecureHash.rounds m hash.chain 80 :=
    doRounds_chain 20 60
      (fun u hLow _ => round_60to79 hLow)
      (fun u hu => hWords u (by omega)) h₃
  unfold SecureHash.compress
  rw [← h₄]
  rfl

end BtPeer

------------------------------------------------------------
-- Pieces
------------------------------------------------------------

namespace BtPeer

open BlockStream

/- The chaining value, and the bytes that wait for a block. -/
def Sha1Context.stream
    (sc : Sha1Context) : SecureHash.Chain × List Byte :=
  (sc.hash.chain,
    ByteMemory.block sc.buffer 0 sc.bufferLength.toNat)

theorem Sha1Context.stream_room
    (sc : Sha1Context) :
    sc.stream.2.length < 64 := by
  rw [Sha1Context.stream, ByteMemory.block_length]
  exact sc.room

/- One pass feeds what it copies. -/
theorem updatePass_stream
    (sc : Sha1Context)
    (data : Nat → Byte)
    (len : Word) :
    (updatePass sc data len).stream =
      feed 64 SecureHash.compress sc.stream
        (ByteMemory.block data 0
          (bytesToCopy sc len).toNat) := by
  have hFits := bytesToCopy_fits sc len
  have hSum :
      (sc.bufferLength + bytesToCopy sc len).toNat =
        sc.bufferLength.toNat + (bytesToCopy sc len).toNat := by
    rw [BitVec.toNat_add, Nat.mod_eq_of_lt (by omega)]
  have hBuffer :=
    ByteMemory.block_memcpy sc.buffer sc.bufferLength.toNat
      data (bytesToCopy sc len).toNat
  unfold feed Sha1Context.stream
  dsimp only
  rw [← hBuffer, ← hSum]
  by_cases hFull : sc.bufferLength + bytesToCopy sc len = 64
  · have hLength :
        (sc.bufferLength + bytesToCopy sc len).toNat = 64 :=
      congrArg BitVec.toNat hFull
    rw [hLength, absorb_block _ (by decide)
      (Nat.le_of_eq (ByteMemory.block_length _ 0 64).symm),
      List.take_of_length_le
        (Nat.le_of_eq (ByteMemory.block_length _ 0 64)),
      List.drop_of_length_le
        (Nat.le_of_eq (ByteMemory.block_length _ 0 64)),
      absorb_of_lt _ (by decide), ← sha1Guts_chain]
    simp only [updatePass, dif_pos hFull]
    rfl
  · have hShort :
        (sc.bufferLength + bytesToCopy sc len).toNat < 64 := by
      have hNot :
          (sc.bufferLength + bytesToCopy sc len).toNat ≠ 64 :=
        fun h => hFull (BitVec.eq_of_toNat_eq h)
      omega
    rw [absorb_of_lt _
      (by rw [ByteMemory.block_length]; exact hShort)]
    simp only [updatePass, dif_neg hFull]

theorem updatePass_totalLength
    (sc : Sha1Context)
    (data : Nat → Byte)
    (len : Word) :
    (updatePass sc data len).totalLength =
      sc.totalLength +
        (bytesToCopy sc len).setWidth 64 * 8 := by
  unfold updatePass
  dsimp only
  split <;> rfl

/- A pass copies at least a byte and at most all of them. -/
theorem bytesToCopy_bounds
    (sc : Sha1Context)
    {len : Word}
    (hSome : len ≠ 0) :
    0 < (bytesToCopy sc len).toNat ∧
      (bytesToCopy sc len).toNat ≤ len.toNat := by
  have hRoom := sc.room
  unfold bytesToCopy
  rw [toNat_wordMin]
  constructor
  · bv_omega
  · exact Nat.min_le_right _ _

/- The loop feeds all the bytes and counts their bits. -/
theorem updateLoop_stream
    (k : Nat)
    (sc : Sha1Context)
    (data : Nat → Byte)
    (len : Word)
    (hFuel : len.toNat ≤ k) :
    (updateLoop k sc data len).stream =
        feed 64 SecureHash.compress sc.stream
          (ByteMemory.block data 0 len.toNat) ∧
      (updateLoop k sc data len).totalLength =
        sc.totalLength + len.setWidth 64 * 8 := by
  induction k generalizing sc data len with
  | zero =>
      have hNone : len = 0 :=
        BitVec.eq_of_toNat_eq (Nat.le_zero.mp hFuel)
      subst hNone
      exact ⟨(feed_nil sc.stream_room).symm,
        (BitVec.add_zero _).symm⟩
  | succ k ih =>
      rw [updateLoop]
      by_cases hNone : len = 0
      · subst hNone
        exact ⟨(feed_nil sc.stream_room).symm,
          (BitVec.add_zero _).symm⟩
      · rcases bytesToCopy_bounds sc hNone with ⟨hPos, hLe⟩
        have hRest :
            (len - bytesToCopy sc len).toNat =
              len.toNat - (bytesToCopy sc len).toNat := by
          bv_omega
        rw [if_neg hNone]
        dsimp only
        rcases ih (updatePass sc data len)
            (fun i => data ((bytesToCopy sc len).toNat + i))
            (len - bytesToCopy sc len) (by omega) with
          ⟨hStream, hTotal⟩
        constructor
        · have hSplit :
              ByteMemory.block data 0 len.toNat =
                ByteMemory.block data 0
                    (bytesToCopy sc len).toNat ++
                  ByteMemory.block data
                    (0 + (bytesToCopy sc len).toNat)
                    (len.toNat -
                      (bytesToCopy sc len).toNat) := by
            rw [← ByteMemory.block_add,
              Nat.add_sub_cancel' hLe]
          rw [hStream, updatePass_stream, hSplit, hRest,
            feed_feed _ (by decide)]
          congr 2
          apply ByteMemory.block_congr
          intro i _
          rw [Nat.zero_add, Nat.zero_add]
        · rw [hTotal, updatePass_totalLength]
          bv_omega

end BtPeer

------------------------------------------------------------
-- Whole Messages
------------------------------------------------------------

namespace BtPeer

open BlockStream

/- The context has taken in the bytes of `message`. -/
structure Sha1Context.Absorbed
    (sc : Sha1Context)
    (message : List Byte) : Prop where
  stream :
    sc.stream =
      absorb 64 SecureHash.compress SecureHash.initial message
  totalLength :
    sc.totalLength = BitVec.ofNat 64 (8 * message.length)

theorem sha1Init_absorbed
    (buffer : Nat → Byte) :
    (sha1Init buffer).Absorbed [] :=
  ⟨rfl, rfl⟩

theorem sha1Update_absorbed
    {sc : Sha1Context}
    {message : List Byte}
    (hAbsorbed : sc.Absorbed message)
    (data : Nat → Byte)
    (len : Word) :
    (sha1Update sc data len).Absorbed
      (message ++ ByteMemory.block data 0 len.toNat) := by
  rcases updateLoop_stream len.toNat sc data len
      (Nat.le_refl _) with ⟨hStream, hTotal⟩
  constructor
  · rw [absorb_append _ (by decide), ← hAbsorbed.stream]
    exact hStream
  · rw [sha1Update, hTotal, hAbsorbed.totalLength,
      List.length_append, ByteMemory.block_length]
    bv_omega

/- How many bytes wait in the buffer. -/
theorem Sha1Context.Absorbed.bufferLength
    {sc : Sha1Context}
    {message : List Byte}
    (hAbsorbed : sc.Absorbed message) :
    sc.bufferLength.toNat = message.length % 64 := by
  have hRest :=
    congrArg (fun m => m.2.length) hAbsorbed.stream
  rw [absorb_rest_length _ (by decide)] at hRest
  simpa [Sha1Context.stream] using hRest

/- The padding bytes: a one and the zeros. -/
theorem bytesToPad_block
    {sc : Sha1Context}
    {message : List Byte}
    (hAbsorbed : sc.Absorbed message) :
    ByteMemory.block paddingBytes 0 (bytesToPad sc).toNat =
      0x80 ::
        List.replicate (SecureHash.zeroBytes message.length)
          0 := by
  have hWaiting := hAbsorbed.bufferLength
  have hCount :
      (bytesToPad sc).toNat =
        1 + SecureHash.zeroBytes message.length := by
    unfold bytesToPad SecureHash.zeroBytes
    dsimp only
    split <;> bv_omega
  have hZeros :
      ByteMemory.block paddingBytes 1
          (SecureHash.zeroBytes message.length) =
        List.replicate (SecureHash.zeroBytes message.length)
          0 := by
    apply List.eq_replicate_iff.mpr
    refine ⟨ByteMemory.block_length _ 1 _, ?_⟩
    intro b hMem
    rcases List.mem_map.mp hMem with ⟨i, _, rfl⟩
    exact if_neg (by omega)
  rw [hCount, ByteMemory.block_add, Nat.zero_add, hZeros]
  rfl

/- The eight bytes of the length. -/
theorem lengthPad_block
    (total : BitVec 64) :
    ByteMemory.block (storeWord64 (byteswap64 total)) 0 8 =
      SecureHash.bytesOf 8 total := by
  apply List.map_congr_left
  intro i hi
  rw [Nat.zero_add]
  exact storeWord64_byteswap64 total (List.mem_range.mp hi)

/- The words that `SHA1Final` writes, byte by byte. -/
theorem writeHash_block
    (s : Sha1Words) :
    ByteMemory.block (writeHash s) 0 sha1HashSize =
      SecureHash.bytesOf 4 s.a ++ SecureHash.bytesOf 4 s.b ++
          SecureHash.bytesOf 4 s.c ++
        SecureHash.bytesOf 4 s.d ++
      SecureHash.bytesOf 4 s.e := rfl

theorem writeHash_digest
    {sc : Sha1Context}
    {message : List Byte}
    (hAbsorbed : sc.Absorbed (SecureHash.padded message)) :
    ByteMemory.block (writeHash sc.hash) 0 sha1HashSize =
      SecureHash.digest message := by
  unfold SecureHash.digest
  rw [← hAbsorbed.stream]
  exact writeHash_block sc.hash

/-
  `SHA1Final` pads the message and writes the digest of what
  the context has taken in.
-/
theorem sha1Final_digest
    {sc : Sha1Context}
    {message : List Byte}
    (hAbsorbed : sc.Absorbed message) :
    ByteMemory.block (sha1Final sc) 0 sha1HashSize =
      SecureHash.digest message := by
  have hPadded :=
    sha1Update_absorbed
      (sha1Update_absorbed hAbsorbed paddingBytes
        (bytesToPad sc))
      (storeWord64 (byteswap64 sc.totalLength)) 8
  have hMessage :
      message ++
            ByteMemory.block paddingBytes 0
              (bytesToPad sc).toNat ++
          ByteMemory.block
            (storeWord64 (byteswap64 sc.totalLength)) 0
            (8 : Word).toNat =
        SecureHash.padded message := by
    rw [bytesToPad_block hAbsorbed,
      show (8 : Word).toNat = 8 from rfl, lengthPad_block,
      hAbsorbed.totalLength, List.append_assoc]
    rfl
  rw [hMessage] at hPadded
  exact writeHash_digest hPadded

/- A message in pieces, each a pointer and a length. -/
def piecesOf
    (pieces : List ((Nat → Byte) × Word)) : List Byte :=
  pieces.flatMap
    (fun piece => ByteMemory.block piece.1 0 piece.2.toNat)

/-
  However a message is cut into pieces, the digest is that of
  the whole message.
-/
theorem sha1_pieces
    (buffer : Nat → Byte)
    (pieces : List ((Nat → Byte) × Word)) :
    ByteMemory.block
        (sha1Final
          (pieces.foldl
            (fun sc piece => sha1Update sc piece.1 piece.2)
            (sha1Init buffer)))
        0 sha1HashSize =
      SecureHash.digest (piecesOf pieces) := by
  have hRun :
      ∀ (sc : Sha1Context) (message : List Byte),
        sc.Absorbed message →
          (pieces.foldl
              (fun sc piece => sha1Update sc piece.1 piece.2)
              sc).Absorbed (message ++ piecesOf pieces) := by
    induction pieces with
    | nil =>
        intro sc message hAbsorbed
        rw [piecesOf, List.flatMap_nil, List.append_nil]
        exact hAbsorbed
    | cons piece pieces ih =>
        intro sc message hAbsorbed
        rw [piecesOf, List.flatMap_cons, ← List.append_assoc]
        exact ih _ _
          (sha1Update_absorbed hAbsorbed piece.1 piece.2)
  exact sha1Final_digest
    (hRun _ [] (sha1Init_absorbed buffer))

/- `shahash` is the digest of the bytes it is given. -/
theorem shahash_digest
    (buffer str : Nat → Byte)
    (len : Word) :
    ByteMemory.block (shahash buffer str len) 0 sha1HashSize =
      SecureHash.digest
        (ByteMemory.block str 0 len.toNat) :=
  sha1Final_digest
    (sha1Update_absorbed (sha1Init_absorbed buffer) str len)

end BtPeer
