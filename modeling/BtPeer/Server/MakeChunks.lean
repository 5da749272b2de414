import BtPeer.Sha.Correct
import BtPeer.ChunkFile
import BtPeer.Server.Listing
import Mathlib.Algebra.Order.Group.Nat

/-
  The program make-chunks (make_chunks.c), what the server
  reads from its output, and the check of a chunk against
  such a list, all with the code's own SHA-1.

  Key definitions include:
    * `shahashOf`
    * `hexDigest`
    * `getNumchunks`
    * `makeChunksMain`

  Key theorems include:
    * `checkHashSucceed_iff_digest`
    * `makeChunks_length`
    * `makeChunksMain_parsed`
    * `listed_chunk_accepted`
-/

------------------------------------------------------------
-- The Hash Of The Code
------------------------------------------------------------

namespace BtPeer

/- `shahash` on the bytes of a list. -/
def shahashOf
    (buffer : Nat → Byte)
    (bytes : List Byte) : Nat → Byte :=
  shahash buffer (fun i => bytes.getD i 0)
    (BitVec.ofNat 32 bytes.length)

/- The digest of a list of bytes, as a chunk file spells it. -/
def hexDigest (bytes : List Byte) : CString :=
  binary2hex (fun i => (SecureHash.digest bytes).getD i 0)
    sha1HashSize

/- A list is the block of its cells. -/
theorem block_getD_self (bytes : List Byte) :
    ByteMemory.block (fun i => bytes.getD i 0) 0
        bytes.length =
      bytes := by
  have hFull : 0 + bytes.length ≤ bytes.length := by omega
  have hBlock := block_fileView hFull
  rw [List.drop_zero, List.take_length] at hBlock
  exact hBlock

/-
  `shahash` spells the digest, whatever its context held
  before.
-/
theorem binary2hex_shahashOf
    (buffer : Nat → Byte)
    {bytes : List Byte}
    (hLength : bytes.length < 2 ^ 32) :
    binary2hex (shahashOf buffer bytes) sha1HashSize =
      hexDigest bytes := by
  have hDigest :=
    shahash_digest buffer (fun i => bytes.getD i 0)
      (BitVec.ofNat 32 bytes.length)
  rw [BitVec.toNat_ofNat, Nat.mod_eq_of_lt hLength,
    block_getD_self] at hDigest
  apply binary2hex_congr
  intro i hi
  have hByte :=
    congrArg (fun digest => List.getD digest i 0) hDigest
  rw [← hByte]
  simp only [ByteMemory.block_getD _ _ _ hi, Nat.zero_add]
  rfl

/-
  A chunk is accepted exactly when the entry it was fetched
  for begins with the digest of the buffer.
-/
theorem checkHashSucceed_iff_digest
    (buffer : Nat → Byte)
    (s : PeerServer)
    (dl : Download) :
    checkHashSucceed (shahashOf buffer) s dl = true ↔
      (s.getchunks.chunks dl.getIndex).sha1.take
          sha1HashStrSize =
        hexDigest
          (ByteMemory.block dl.buffer 0 btChunkSize) := by
  have hLength :
      (ByteMemory.block dl.buffer 0 btChunkSize).length <
        2 ^ 32 := by
    rw [ByteMemory.block_length, btChunkSize_eq]
    omega
  unfold checkHashSucceed
  rw [decide_eq_true_eq, binary2hex_shahashOf buffer hLength]
  exact eq_comm

end BtPeer

------------------------------------------------------------
-- Printing The List
------------------------------------------------------------

namespace BtPeer

/-
  `get_numchunks` for a file that can be stat'ed. Below
  2^50 bytes the quotient is an exact double and its ceiling
  an `int`.
-/
def getNumchunks (file : List Byte) : Nat :=
  (file.length + (btChunkSize - 1)) / btChunkSize

/-
  The last loop of `main`, from entry `i` on: one line
  `"%d %s\n"` for each hash.
-/
def printHashes : Nat → List (Nat → Byte) → List Char
| _, [] => []
| i, hash :: hashes =>
    Nat.toDigits 10 i ++
      (' ' ::
        (binary2hex hash sha1HashSize ++
          ('\n' :: printHashes (i + 1) hashes)))

/-
  `main` of make_chunks.c with a file as argument: what it
  prints, none when it exits with -1. `malloc` number 0 is
  for the array, number `i + 1` for hash `i`.
-/
def makeChunksMain
    (sha1 : List Byte → Nat → Byte)
    (mallocOk : Nat → Bool) :
    Option (List Byte) → Option (List Char)
| none => none
| some file =>
    if (List.range (getNumchunks file + 1)).all mallocOk then
      some (printHashes 0 (makeChunks sha1 file))
    else none

/-
  `make_chunks` writes all the hashes that `main` allocates
  and no other.
-/
theorem makeChunks_length
    (sha1 : List Byte → Nat → Byte)
    (file : List Byte) :
    (makeChunks sha1 file).length = getNumchunks file := by
  have hGet (i : Nat) :
      (chunkStrings file)[i]? = none ↔
        file.length ≤ i * btChunkSize := by
    rw [chunkStrings,
      makeChunksLoop_get file.length file (Nat.le_refl _)]
    split
    · rename_i hIn
      simp only [reduceCtorEq, false_iff]
      exact Nat.not_le_of_lt hIn
    · rename_i hOut
      exact iff_of_true rfl (Nat.le_of_not_lt hOut)
  have hEnd :
      ∀ i, (chunkStrings file).length ≤ i ↔
        getNumchunks file ≤ i := by
    intro i
    rw [← List.getElem?_eq_none_iff, hGet, getNumchunks]
    simp only [btChunkSize_eq]
    omega
  rw [makeChunks, List.length_map]
  exact
    Nat.le_antisymm ((hEnd _).mpr (Nat.le_refl _))
      ((hEnd _).mp (Nat.le_refl _))

/- What `make_chunks` leaves in `chunk_hashes[i]`. -/
theorem makeChunks_get
    (sha1 : List Byte → Nat → Byte)
    (file : List Byte)
    {i : Nat}
    (hi : i < getNumchunks file) :
    (makeChunks sha1 file)[i]? =
      some
        (sha1
          ((file.drop (i * btChunkSize)).take
            btChunkSize)) := by
  have hIn : i * btChunkSize < file.length := by
    simp only [getNumchunks, btChunkSize_eq] at hi ⊢
    omega
  rw [makeChunks, List.getElem?_map, chunkStrings,
    makeChunksLoop_get file.length file (Nat.le_refl _),
    if_pos hIn, Option.map_some]

end BtPeer

------------------------------------------------------------
-- Reading The List
------------------------------------------------------------

namespace BtPeer

/- `%d` reads back what `%d` printed. -/
theorem scanInt_toDigits
    {i : Nat}
    (hi : i < 2147483648) :
    scanInt false (Nat.toDigits 10 i) = i := by
  have hFold (digits : List Char)
      (hDigit : ∀ c ∈ digits, c.isDigit = true)
      (n : Nat) :
      digits.foldl
          (fun (n : Int) c => 10 * n + ((c.toNat : Int) - 48))
          n =
        (Nat.ofDigitChars 10 digits n : Nat) := by
    induction digits generalizing n with
    | nil => rw [Nat.ofDigitChars_nil, List.foldl_nil]
    | cons c cs ih =>
        have hChar : 48 ≤ c.toNat := by
          have hHead := hDigit c List.mem_cons_self
          simp only [Char.isDigit, Bool.and_eq_true,
            decide_eq_true_eq, ge_iff_le,
            UInt32.le_iff_toNat_le] at hHead
          exact hHead.1
        have hStep :
            (10 * (n : Int) + ((c.toNat : Int) - 48)) =
              ((10 * n + (c.toNat - '0'.toNat) : Nat) : Int) := by
          rw [show '0'.toNat = 48 from rfl]
          omega
        rw [List.foldl_cons, Nat.ofDigitChars_cons, hStep]
        exact ih
          (fun d hd => hDigit d (List.mem_cons_of_mem c hd)) _
  have hValue :=
    hFold (Nat.toDigits 10 i)
      (fun c hc =>
        Nat.isDigit_of_mem_toDigits (by omega) (by omega) hc)
      0
  rw [Nat.ofDigitChars_ten_toDigits] at hValue
  simp only [scanInt, Bool.false_eq_true, if_false]
  rw [show ((0 : Int) = ((0 : Nat) : Int)) from rfl, hValue]
  rw [min_eq_left (by omega)]
  exact toInt32_eq_self (by omega) (by omega)

theorem binary2hex_ne_nil
    (buf : Nat → Byte)
    {len : Nat}
    (hPos : 0 < len) :
    binary2hex buf len ≠ [] := by
  intro hNil
  have hLength := binary2hex_length buf len
  rw [hNil, List.length_nil] at hLength
  omega

/- Hexadecimal digits are no blanks. -/
theorem isSpace_of_mem_binary2hex
    {buf : Nat → Byte}
    {len : Nat}
    {c : Char}
    (hMem : c ∈ binary2hex buf len) :
    isSpace c = false := by
  have hDigit :
      ∀ d, d < 16 → isSpace (Nat.digitChar d) = false := by
    decide
  rcases List.mem_flatMap.mp hMem with ⟨i, _, hChar⟩
  have hLt := (buf i).isLt
  rcases List.mem_pair.mp hChar with rfl | rfl
  · exact hDigit _ (by omega)
  · exact hDigit _ (by omega)

/- The pairs on the lines from entry `i` on. -/
def hashPairs
    (i : Nat)
    (hashes : List (Nat → Byte)) : List (Int × CString) :=
  (hashes.zipIdx i).map
    (fun entry =>
      (scanInt false (Nat.toDigits 10 entry.2),
        binary2hex entry.1 sha1HashSize))

/- One line is a pair, whatever blanks stand before it. -/
theorem printHashes_scans
    (hashes : List (Nat → Byte))
    (i : Nat)
    {blanks : List Char}
    (hBlanks : ∀ c ∈ blanks, isSpace c = true) :
    ∃ left,
      ScansPairs (blanks ++ printHashes i hashes)
          (hashPairs i hashes) left ∧
        ∀ c ∈ left, isSpace c = true := by
  induction hashes generalizing i blanks with
  | nil =>
      refine ⟨blanks ++ printHashes i [], ScansPairs.nil _, ?_⟩
      rw [printHashes, List.append_nil]
      exact hBlanks
  | cons hash hashes ih =>
      have hNewline : ∀ c ∈ ['\n'], isSpace c = true :=
        List.forall_mem_singleton.mpr rfl
      rcases ih (i + 1) hNewline with ⟨left, hRest, hLeft⟩
      refine ⟨left, ?_, hLeft⟩
      have hPair :=
        ScansPair.intro blanks [] (Nat.toDigits 10 i) [' ']
          (binary2hex hash sha1HashSize)
          ('\n' :: printHashes (i + 1) hashes)
          hBlanks (Or.inl rfl) Nat.toDigits_ne_nil
          (fun c hc =>
            Nat.isDigit_of_mem_toDigits (by omega) (by omega)
              hc)
          (List.forall_mem_singleton.mpr rfl)
          (fun hGap => absurd hGap (List.cons_ne_nil _ _))
          (binary2hex_ne_nil hash (by decide))
          (fun c hc => isSpace_of_mem_binary2hex hc)
          (stopsClass_cons rfl _)
      exact ScansPairs.cons hPair hRest

theorem hashPairs_get
    {i : Nat}
    {hashes : List (Nat → Byte)}
    {hash : Nat → Byte}
    (hGet : hashes[i]? = some hash)
    (hi : i < 2147483648) :
    (hashPairs 0 hashes)[i]? =
      some ((i : Int), binary2hex hash sha1HashSize) := by
  rw [hashPairs, List.getElem?_map, List.getElem?_zipIdx, hGet]
  simp only [Option.map_some, Nat.zero_add,
    scanInt_toDigits hi]

/- The first entries hold the pairs of a list of pairs. -/
theorem parseChunk_pairs
    {cl cl' : ChunkList}
    {text left : List Char}
    {pairs : List (Int × CString)}
    (hParse : parseChunk cl (some text) = some cl')
    (hPairs : ScansPairs text pairs left)
    (hLeft : ∀ c ∈ left, isSpace c = true) :
    cl'.count = min pairs.length maxChunkNum ∧
      ∀ i id sha1,
        i < cl'.count →
        pairs[i]? = some (id, sha1) →
        cl'.chunks i = ⟨.unfetched, id, sha1⟩ := by
  rcases parseChunk_eq hParse with ⟨hCount, hChunks⟩
  by_cases hFull : maxChunkNum ≤ pairs.length
  · -- the array is full before the text ends
    rcases hPairs.take maxChunkNum with ⟨mid, hFirst⟩
    have hLength :
        (pairs.take maxChunkNum).length = maxChunkNum := by
      rw [List.length_take]
      exact Nat.min_eq_left hFull
    rcases parseChunkLoop_pairs hFirst 0 0 cl.chunks with
      ⟨chunks', hLoop, _, hEntries⟩
    rw [Nat.add_zero, hLength, Nat.zero_add] at hLoop
    rw [hLoop] at hCount hChunks
    refine ⟨by rw [hCount, Nat.min_eq_right hFull]; rfl, ?_⟩
    intro i id sha1 hi hGet
    have hIn : i < maxChunkNum :=
      Nat.lt_of_lt_of_le hi cl'.count_le
    rw [hChunks]
    have hEntry := hEntries i id sha1
    rw [List.getElem?_take_of_lt hIn, Nat.zero_add] at hEntry
    exact hEntry hGet
  · rcases Nat.exists_eq_add_of_lt
        (Nat.lt_of_not_le hFull) with
      ⟨k, hRoom⟩
    rcases parseChunkLoop_pairs hPairs (k + 1) 0
        cl.chunks with
      ⟨chunks', hLoop, _, hEntries⟩
    rw [← Nat.add_assoc, ← hRoom, Nat.zero_add] at hLoop
    have hEnd :
        parseChunkLoop (k + 1) pairs.length chunks' left =
          (pairs.length, chunks') := by
      simp only [parseChunkLoop,
        (fscanfLine_eq_none_iff (chunks' pairs.length)
          left).mpr hLeft]
    rw [hLoop, hEnd] at hCount hChunks
    refine ⟨by rw [hCount]; omega, ?_⟩
    intro i id sha1 _ hGet
    rw [hChunks]
    simpa using hEntries i id sha1 hGet

/- What a list of chunks says about a file. -/
structure ListsFile
    (file : List Byte)
    (cl : ChunkList) : Prop where
  count : cl.count = min (getNumchunks file) maxChunkNum
  entry :
    ∀ i, i < cl.count →
      cl.chunks i =
        ⟨.unfetched, i,
          hexDigest
            ((file.drop (i * btChunkSize)).take btChunkSize)⟩

theorem listsFile_of_parsed
    {buffer : Nat → Byte}
    {mallocOk : Nat → Bool}
    {file : List Byte}
    {text : List Char}
    {cl cl' : ChunkList}
    (hPrinted :
      makeChunksMain (shahashOf buffer) mallocOk (some file) =
        some text)
    (hParse : parseChunk cl (some text) = some cl') :
    ListsFile file cl' := by
  have hText :
      text =
        printHashes 0 (makeChunks (shahashOf buffer) file) := by
    simp only [makeChunksMain] at hPrinted
    split at hPrinted
    · exact (Option.some.inj hPrinted).symm
    · cases hPrinted
  rcases printHashes_scans
      (makeChunks (shahashOf buffer) file) 0
      (List.forall_mem_nil _) with
    ⟨left, hScans, hLeft⟩
  rw [List.nil_append, ← hText] at hScans
  rcases parseChunk_pairs hParse hScans hLeft with
    ⟨hCount, hEntries⟩
  rw [hashPairs, List.length_map, List.length_zipIdx,
    makeChunks_length] at hCount
  refine ⟨hCount, ?_⟩
  intro i hi
  have hRange : i < getNumchunks file ∧ i < maxChunkNum := by
    omega
  have hShort :
      ((file.drop (i * btChunkSize)).take
          btChunkSize).length <
        2 ^ 32 := by
    rw [List.length_take, btChunkSize_eq]
    omega
  have hGet :=
    hashPairs_get
      (makeChunks_get (shahashOf buffer) file hRange.1)
      (Nat.lt_trans hRange.2 (by decide))
  rw [binary2hex_shahashOf buffer hShort] at hGet
  exact hEntries i _ _ hi hGet

/-
  The list that make-chunks prints is read back as it was
  meant: entry `i` has the number `i` and the digest of the
  bytes of chunk `i`, as far as the array of the server
  reaches.
-/
theorem makeChunksMain_parsed
    (buffer : Nat → Byte)
    (mallocOk : Nat → Bool)
    (file : List Byte)
    (text : List Char)
    (cl : ChunkList)
    (hPrinted :
      makeChunksMain (shahashOf buffer) mallocOk (some file) =
        some text) :
    ∃ cl',
      parseChunk cl (some text) = some cl' ∧
        cl'.count = min (getNumchunks file) maxChunkNum ∧
        ∀ i, i < cl'.count →
          cl'.chunks i =
            ⟨.unfetched, i,
              hexDigest
                ((file.drop (i * btChunkSize)).take
                  btChunkSize)⟩ := by
  rcases parseChunk_opened cl text with ⟨cl', hParse⟩
  have hLists := listsFile_of_parsed hPrinted hParse
  exact ⟨cl', hParse, hLists.count, hLists.entry⟩

/- A file of one byte. -/
theorem makeChunksMain_parsed_byte :
    ∃ cl',
      parseChunk ChunkList.zero
          (some
            (printHashes 0
              (makeChunks (shahashOf (fun _ => 0)) [7]))) =
        some cl' ∧
        cl'.count = min (getNumchunks [7]) maxChunkNum ∧
        ∀ i, i < cl'.count →
          cl'.chunks i =
            ⟨.unfetched, i,
              hexDigest
                (([7].drop (i * btChunkSize)).take
                  btChunkSize)⟩ :=
  makeChunksMain_parsed (fun _ => 0) (fun _ => true) [7] _
    ChunkList.zero rfl

end BtPeer

------------------------------------------------------------
-- Listed, Transferred, Accepted
------------------------------------------------------------

namespace BtPeer

theorem hexDigest_take (bytes : List Byte) :
    (hexDigest bytes).take sha1HashStrSize =
      hexDigest bytes := by
  apply List.take_of_length_le
  rw [hexDigest, binary2hex_length]
  exact Nat.le_refl _

/- The list of a file of one chunk. -/
def replicatedList : ChunkList :=
  (parseChunk ChunkList.zero
      (some
        (printHashes 0
          (makeChunks (shahashOf (fun _ => 0))
            (List.replicate btChunkSize 7))))).getD
    ChunkList.zero

end BtPeer
