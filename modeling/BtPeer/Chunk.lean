import BtPeer.Basic
import Mathlib.Data.List.GetD

/-
  Chunk hashes and chunk lists (chunk.c, chunklist.c).

  `fscanf` is read with its standard meaning. A hash token
  longer than 40 characters overflows `sha1` in the code;
  here the field holds the whole token.

  Key definitions include:
    * `binary2hex`
    * `hex2binary`
    * `spelled`
    * `ChunkLine`
    * `ChunkList`
    * `parseChunk`

  Key theorems include:
    * `hex2binary_binary2hex`
    * `parseChunk_unfetched`
-/

------------------------------------------------------------
-- Hexadecimal Conversion
------------------------------------------------------------

namespace BtPeer

/- Two lower-case digits for each of the `len` bytes. -/
def binary2hex
    (buf : Nat → Byte)
    (len : Nat) : CString :=
  (List.range len).flatMap (fun i =>
    [Nat.digitChar ((buf i).toNat / 16),
      Nat.digitChar ((buf i).toNat % 16)])

/- Only the first `len` bytes are converted. -/
theorem binary2hex_congr
    {buf buf' : Nat → Byte}
    {len : Nat}
    (hBytes : ∀ i, i < len → buf i = buf' i) :
    binary2hex buf len = binary2hex buf' len := by
  unfold binary2hex
  apply List.flatMap_congr
  intro i hi
  rw [hBytes i (List.mem_range.mp hi)]

/-
  `_hex2binary`: the value of one digit. Characters from
  code 128 on are negative as a `char`, hence below '9'.
-/
def hexDigit2binary (hex : Char) : Byte :=
  let c := hex.toUpper.toNat
  if c ≤ 57 ∨ 128 ≤ c then BitVec.ofInt 8 (c - 48)
  else BitVec.ofInt 8 (c - 55)

/- The character at index `i`, zero from the terminator on. -/
def charAt
    (s : CString)
    (i : Nat) : Char :=
  s.getD i (Char.ofNat 0)

/- The bytes spelled by the digits of `hex`, two a byte. -/
def hex2binary (hex : CString) : Nat → Byte :=
  fun i =>
    hexDigit2binary (charAt hex (2 * i)) <<< 4 |||
      hexDigit2binary (charAt hex (2 * i + 1))

/- Strings as `binary2hex` produces them for a digest. -/
def IsHashString (hash : CString) : Prop :=
  ∃ buf, hash = binary2hex buf sha1HashSize

/- Two digits for every byte. -/
theorem binary2hex_length
    (buf : Nat → Byte)
    (len : Nat) :
    (binary2hex buf len).length = 2 * len := by
  induction len with
  | zero => rfl
  | succ len ih =>
      unfold binary2hex at ih ⊢
      rw [List.range_succ, List.flatMap_append,
        List.length_append, ih]
      rfl

theorem binary2hex_succ
    (buf : Nat → Byte)
    (len : Nat) :
    binary2hex buf (len + 1) =
      binary2hex buf len ++
        [Nat.digitChar ((buf len).toNat / 16),
          Nat.digitChar ((buf len).toNat % 16)] := by
  unfold binary2hex
  rw [List.range_succ, List.flatMap_append]
  rfl

/- The two digits of one byte. -/
theorem charAt_binary2hex
    (buf : Nat → Byte)
    {len i : Nat}
    (hi : i < len) :
    charAt (binary2hex buf len) (2 * i) =
        Nat.digitChar ((buf i).toNat / 16) ∧
      charAt (binary2hex buf len) (2 * i + 1) =
        Nat.digitChar ((buf i).toNat % 16) := by
  unfold charAt
  induction len with
  | zero => exact absurd hi (Nat.not_lt_zero i)
  | succ len ih =>
      have hLength := binary2hex_length buf len
      rw [binary2hex_succ]
      by_cases hLast : i = len
      · subst hLast
        constructor
        · rw [List.getD_append_right _ _ _ _ (by omega), hLength,
            Nat.sub_self]
          rfl
        · rw [List.getD_append_right _ _ _ _ (by omega), hLength,
            Nat.add_sub_cancel_left]
          rfl
      · rw [List.getD_append _ _ _ _ (by omega),
          List.getD_append _ _ _ _ (by omega)]
        exact ih (by omega)

theorem hexDigit2binary_digitChar :
    ∀ n, n < 16 →
      hexDigit2binary (Nat.digitChar n) = BitVec.ofNat 8 n := by
  decide

/- Converting to digits and back gives the bytes. -/
theorem hex2binary_binary2hex
    (buf : Nat → Byte)
    {len i : Nat}
    (hi : i < len) :
    hex2binary (binary2hex buf len) i = buf i := by
  have hLt := (buf i).isLt
  have hJoin :
      ∀ b : Byte,
        BitVec.ofNat 8 (b.toNat / 16) <<< 4 |||
          BitVec.ofNat 8 (b.toNat % 16) = b := by
    decide
  rcases charAt_binary2hex buf hi with ⟨hHigh, hLow⟩
  unfold hex2binary
  rw [hHigh, hLow,
    hexDigit2binary_digitChar _ (by omega),
    hexDigit2binary_digitChar _ (by omega)]
  exact hJoin (buf i)

/- A hash as a receiver spells it, from its 20 bytes. -/
def spelled (hash : CString) : CString :=
  binary2hex (hex2binary hash) sha1HashSize

theorem spelled_congr
    {hash hash' : CString}
    (hBytes :
      ∀ i, i < sha1HashSize →
        hex2binary hash i = hex2binary hash' i) :
    spelled hash = spelled hash' :=
  binary2hex_congr hBytes

/- Spelling a digest again gives the same string. -/
theorem IsHashString.spelled_eq
    {hash : CString}
    (hHash : IsHashString hash) :
    spelled hash = hash := by
  rcases hHash with ⟨buf, rfl⟩
  exact binary2hex_congr
    (fun i hi => hex2binary_binary2hex buf hi)

theorem isHashString_spelled
    (hash : CString) :
    IsHashString (spelled hash) :=
  ⟨hex2binary hash, rfl⟩

end BtPeer

------------------------------------------------------------
-- Chunk Lists
------------------------------------------------------------

namespace BtPeer

inductive ChunkState where
  | unfetched
  | fetching
  | fetched
deriving DecidableEq, Repr

structure ChunkLine where
  state : ChunkState
  id : Int
  sha1 : CString
deriving DecidableEq, Repr

/-
  The array keeps its contents past `count`; entries there
  are left over from longer lists.
-/
structure ChunkList where
  count : Nat
  chunks : Nat → ChunkLine
  count_le : count ≤ maxChunkNum

namespace ChunkList

/- A zero-initialized list. -/
def zero : ChunkList where
  count := 0
  chunks := fun _ => ⟨.unfetched, 0, []⟩
  count_le := Nat.zero_le _

/- Set the state of the chunk at index `i`. -/
def setState
    (cl : ChunkList)
    (i : Nat)
    (st : ChunkState) : ChunkList :=
  { cl with
    chunks :=
      Function.update cl.chunks i
        { cl.chunks i with state := st } }

@[simp] theorem setState_count
    (cl : ChunkList)
    (i : Nat)
    (st : ChunkState) :
    (cl.setState i st).count = cl.count := rfl

@[simp] theorem setState_state
    (cl : ChunkList)
    (i k : Nat)
    (st : ChunkState) :
    ((cl.setState i st).chunks k).state =
      if k = i then st else (cl.chunks k).state := by
  by_cases hk : k = i
  · subst hk
    simp [setState]
  · simp [setState, hk]

@[simp] theorem setState_id
    (cl : ChunkList)
    (i k : Nat)
    (st : ChunkState) :
    ((cl.setState i st).chunks k).id = (cl.chunks k).id := by
  by_cases hk : k = i
  · subst hk
    simp [setState]
  · simp [setState, hk]

@[simp] theorem setState_sha1
    (cl : ChunkList)
    (i k : Nat)
    (st : ChunkState) :
    ((cl.setState i st).chunks k).sha1 =
      (cl.chunks k).sha1 := by
  by_cases hk : k = i
  · subst hk
    simp [setState]
  · simp [setState, hk]

end ChunkList

/-
  `hash2Index`: the first entry with this hash, `none` for
  the code's -1.
-/
def hash2Index
    (clist : ChunkList)
    (hash : CString) : Option Nat :=
  (List.range clist.count).find?
    (fun i => (clist.chunks i).sha1 = hash)

theorem hash2Index_lt
    {clist : ChunkList}
    {hash : CString}
    {i : Nat}
    (hFound : hash2Index clist hash = some i) :
    i < clist.count :=
  List.mem_range.mp (List.mem_of_find?_eq_some hFound)

end BtPeer

------------------------------------------------------------
-- Parsing Chunk Files
------------------------------------------------------------

namespace BtPeer

/- `isspace` in the C locale. -/
def isSpace (c : Char) : Bool :=
  c.toNat = 32 || (9 ≤ c.toNat && c.toNat ≤ 13)

/-
  The `int` that `%d` stores: the digits as a `long`,
  clamped to its range, then converted.
-/
def scanInt
    (negative : Bool)
    (digits : List Char) : Int :=
  let value : Int :=
    digits.foldl (fun n c => 10 * n + (c.toNat - 48)) 0
  if negative then toInt32 (max (-value) (-(2 ^ 63)))
  else toInt32 (min value (2 ^ 63 - 1))

/-
  One `fscanf(fp, "%d %s", &id, sha1)` on the rest of the
  file: `none` is EOF, otherwise the entry as far as it was
  converted and what is left of the file. A failed `%d`
  consumes at most a sign.
-/
def fscanfLine
    (line : ChunkLine)
    (inp : List Char) : Option (ChunkLine × List Char) :=
  match inp.dropWhile isSpace with
  | [] => none
  | c :: rest =>
      let body := if c = '-' ∨ c = '+' then rest else c :: rest
      let digits := body.takeWhile Char.isDigit
      if digits = [] then some (line, body)
      else
        let line :=
          { line with id := scanInt (c = '-') digits }
        match (body.dropWhile Char.isDigit).dropWhile
            isSpace with
        | [] => some (line, [])
        | token =>
            some
              ({ line with
                  sha1 := token.takeWhile (! isSpace ·) },
                token.dropWhile (! isSpace ·))

/-
  The loop of `parse_chunk` from entry `i` on, with `k`
  entries left in the array. Returns the number of entries
  and the array.
-/
def parseChunkLoop :
    Nat → Nat → (Nat → ChunkLine) → List Char →
      Nat × (Nat → ChunkLine)
| 0, i, chunks, _ => (i, chunks)
| k + 1, i, chunks, inp =>
    match fscanfLine (chunks i) inp with
    | none => (i, chunks)
    | some (line, rest) =>
        parseChunkLoop k (i + 1)
          (Function.update chunks i
            { line with state := .unfetched })
          rest

/- The loop stays in the array and resets every state. -/
theorem parseChunkLoop_spec
    (k i : Nat)
    (chunks : Nat → ChunkLine)
    (inp : List Char) :
    i ≤ (parseChunkLoop k i chunks inp).1 ∧
      (parseChunkLoop k i chunks inp).1 ≤ i + k ∧
      (∀ j, j < i →
        (parseChunkLoop k i chunks inp).2 j = chunks j) ∧
      ∀ j, i ≤ j →
        j < (parseChunkLoop k i chunks inp).1 →
        ((parseChunkLoop k i chunks inp).2 j).state =
          .unfetched := by
  induction k generalizing i chunks inp with
  | zero =>
      simp only [parseChunkLoop]
      refine ⟨Nat.le_refl i, Nat.le_refl i, ?_, ?_⟩
      · intro j _
        trivial
      · intro j hLow hHigh
        omega
  | succ k ih =>
      cases hScan : fscanfLine (chunks i) inp with
      | none =>
          simp only [parseChunkLoop, hScan]
          refine ⟨Nat.le_refl i, by omega, ?_, ?_⟩
          · intro j _
            trivial
          · intro j hLow hHigh
            omega
      | some result =>
          rcases result with ⟨line, rest⟩
          simp only [parseChunkLoop, hScan]
          rcases ih (i + 1)
              (Function.update chunks i
                { line with state := .unfetched }) rest with
            ⟨hLow, hHigh, hBefore, hStates⟩
          refine ⟨by omega, by omega, ?_, ?_⟩
          · intro j hj
            rw [hBefore j (by omega)]
            exact Function.update_of_ne (by omega) _ _
          · intro j hLowJ hHighJ
            by_cases hFirst : j = i
            · subst hFirst
              rw [hBefore j (by omega)]
              simp
            · exact hStates j (by omega) hHighJ

/-
  `parse_chunk` on the contents of the chunk file, `none`
  when it cannot be opened. The array is reused, so an entry
  that was not converted keeps its old contents.
-/
def parseChunk
    (cl : ChunkList)
    (file : Option (List Char)) : Option ChunkList :=
  match file with
  | none => none
  | some text =>
      some
        { count :=
            (parseChunkLoop maxChunkNum 0 cl.chunks text).1
          chunks :=
            (parseChunkLoop maxChunkNum 0 cl.chunks text).2
          count_le := by
            have hSpec :=
              parseChunkLoop_spec maxChunkNum 0 cl.chunks text
            omega }

/- Every entry of a parsed list is unfetched. -/
theorem parseChunk_unfetched
    {cl cl' : ChunkList}
    {file : Option (List Char)}
    (hParse : parseChunk cl file = some cl')
    {i : Nat}
    (hi : i < cl'.count) :
    (cl'.chunks i).state = .unfetched := by
  cases file with
  | none => simp [parseChunk] at hParse
  | some text =>
      simp only [parseChunk, Option.some.injEq] at hParse
      subst hParse
      exact
        (parseChunkLoop_spec maxChunkNum 0 cl.chunks text
          ).2.2.2 i (Nat.zero_le i) hi

end BtPeer
