import BtPeer.Server.ParsePacket
import BtPeer.Transfer.Reassembly

/-
  The bytes that `make_chunks` hashes when it lists a file
  (chunk.c), and the bytes that `check_hash_succeed` hashes
  after the chunk was served and transferred.

  A mapped page reads as zero behind the end of the file; a
  page without any byte of the file cannot be read.

  Key definitions include:
    * `makeChunks`
    * `fileView`
    * `Transferred`
    * `FetchedAsListed`

  Key theorems include:
    * `chunkStrings_get`
    * `exists_transferred`
    * `fetchedAsListed_iff`
-/

------------------------------------------------------------
-- Listing A File
------------------------------------------------------------

namespace BtPeer

/-
  The loop of `make_chunks`: the contents of `buffer` that
  each `fread` leaves, until one reads nothing. A file of
  `k` bytes takes at most `k` rounds.
-/
def makeChunksLoop : Nat → List Byte → List (List Byte)
| 0, _ => []
| k + 1, rest =>
    let buffer := rest.take btChunkSize
    if buffer.length = 0 then []
    else
      buffer :: makeChunksLoop k (rest.drop btChunkSize)

/- The byte strings that `make_chunks` hashes. -/
def chunkStrings (file : List Byte) : List (List Byte) :=
  makeChunksLoop file.length file

/- `make_chunks`: one hash for each string. -/
def makeChunks
    (sha1 : List Byte → Nat → Byte)
    (file : List Byte) : List (Nat → Byte) :=
  (chunkStrings file).map sha1

/- The loop lists `BT_CHUNK_SIZE` bytes at a time. -/
theorem makeChunksLoop_get
    (k : Nat)
    (rest : List Byte)
    (hFuel : rest.length ≤ k)
    (i : Nat) :
    (makeChunksLoop k rest)[i]? =
      if i * btChunkSize < rest.length then
        some
          ((rest.drop (i * btChunkSize)).take btChunkSize)
      else none := by
  induction k generalizing rest i with
  | zero =>
      have hEmpty : ¬ i * btChunkSize < rest.length := by
        omega
      rw [if_neg hEmpty]
      rfl
  | succ k ih =>
      have hTake :
          (rest.take btChunkSize).length =
            min btChunkSize rest.length :=
        List.length_take
      simp only [makeChunksLoop]
      split
      · rename_i hEnd
        have hEmpty : ¬ i * btChunkSize < rest.length := by
          rw [hTake] at hEnd
          simp only [btChunkSize_eq] at hEnd ⊢
          omega
        rw [if_neg hEmpty]
        rfl
      · rename_i hMore
        rw [hTake] at hMore
        have hRest : (rest.drop btChunkSize).length ≤ k := by
          rw [List.length_drop]
          simp only [btChunkSize_eq] at hMore ⊢
          omega
        cases i with
        | zero =>
            have hFirst :
                0 * btChunkSize < rest.length := by
              omega
            rw [if_pos hFirst, Nat.zero_mul, List.drop_zero]
            rfl
        | succ i =>
            rw [List.getElem?_cons_succ, ih _ hRest i,
              List.length_drop, List.drop_drop, Nat.succ_mul,
              Nat.add_comm btChunkSize]
            have hShift :
                i * btChunkSize < rest.length - btChunkSize ↔
                  i * btChunkSize + btChunkSize <
                    rest.length := by
              omega
            by_cases hIn :
                i * btChunkSize + btChunkSize < rest.length
            · rw [if_pos (hShift.mpr hIn), if_pos hIn]
            · rw [if_neg (mt hShift.mp hIn), if_neg hIn]

/- Chunk `i` is listed when the file reaches it. -/
theorem chunkStrings_get
    {file : List Byte}
    {i : Nat}
    {listed : List Byte}
    (hListed : (chunkStrings file)[i]? = some listed) :
    i * btChunkSize < file.length ∧
      listed =
        (file.drop (i * btChunkSize)).take btChunkSize := by
  rw [chunkStrings,
    makeChunksLoop_get file.length file (Nat.le_refl _)]
    at hListed
  split at hListed
  · rename_i hIn
    exact ⟨hIn, (Option.some.inj hListed).symm⟩
  · simp at hListed

end BtPeer

------------------------------------------------------------
-- Serving And Transferring A Chunk
------------------------------------------------------------

namespace BtPeer

open EventMachine

/- What a mapping of the file reads. -/
def fileView (file : List Byte) : Nat → Byte :=
  fun a => file.getD a 0

/- The page of the address `a` holds a byte of the file. -/
def Readable
    (pageSize : Nat)
    (file : List Byte)
    (a : Nat) : Prop :=
  a / pageSize * pageSize < file.length

/-
  `dl` is the download after a complete transfer of segments
  of `content`, with losses, duplicates and timeouts.
-/
def Transferred
    (content : Nat → Byte)
    (dl : Download) : Prop :=
  ∃ (now : Word) (pIndex getIndex : Nat)
      (filename : CString) (es : List DownloadEvent),
    (∀ e, e ∈ es →
        Reassembly.IsSegment payloadSize content e) ∧
      dl =
        (run Reassembly.step
          (Reassembly.start now pIndex getIndex filename)
          es).dl ∧
      dl.finished = true

/- The segments of `ul_send` all have the same length. -/
theorem segmentLen_payloadSize
    {seq : Nat}
    (hFirst : 1 ≤ seq)
    (hLast : seq ≤ segmentCount payloadSize) :
    segmentLen payloadSize seq = payloadSize := by
  have hCount : segmentCount payloadSize = 512 := by decide
  rw [hCount] at hLast
  simp only [segmentLen, payloadSize_eq, btChunkSize_eq]
  omega

/- What the uploader sends are such segments. -/
theorem CarriesSegment.carriesPart
    {content : Nat → Byte}
    {pkt : Packet}
    (hSegment : CarriesSegment content pkt) :
    CarriesPart payloadSize content pkt := by
  have hCount : segmentCount payloadSize = lastSeq := by
    decide
  have hLast := hSegment.last
  rw [← hCount] at hLast
  have hLen := segmentLen_payloadSize hSegment.first hLast
  refine ⟨hSegment.first, hLast, ?_, ?_⟩
  · rw [hLen]
    exact hSegment.dataLen
  · intro i hi
    rw [hLen] at hi
    exact hSegment.bytes i hi

theorem transferred_assembles
    {content : Nat → Byte}
    {s : Reassembly}
    (hInv : s.Assembles payloadSize content)
    (e : DownloadEvent)
    (hEvent : Reassembly.IsSegment payloadSize content e) :
    (s.step e).Assembles payloadSize content := by
  apply Reassembly.step_assembles (by decide) e hInv
  refine ⟨hEvent, ?_⟩
  cases e with
  | deliver now ts pkt =>
      intro _
      exact segmentLen_payloadSize hEvent.first hEvent.last
  | timeout now ts => trivial

theorem start_payloadSize
    (content : Nat → Byte)
    (now : Word)
    (pIndex getIndex : Nat)
    (filename : CString) :
    (Reassembly.start now pIndex getIndex
      filename).Assembles payloadSize content :=
  Reassembly.start_assembles (by decide) now pIndex getIndex
    filename

/- The buffer holds the chunk that was transferred. -/
theorem Transferred.block_eq
    {content : Nat → Byte}
    {dl : Download}
    (hTransferred : Transferred content dl) :
    ByteMemory.block dl.buffer 0 btChunkSize =
      ByteMemory.block content 0 btChunkSize := by
  rcases hTransferred with
    ⟨now, pIndex, getIndex, filename, es, hSegments, rfl,
      hFinished⟩
  have hInv :=
    run_invariant_along
      (Reassembly.Assembles payloadSize content)
      (fun _ e hInv hEvent =>
        transferred_assembles hInv e hEvent)
      (start_payloadSize content now pIndex getIndex filename)
      (along_of_forall _ hSegments)
  apply ByteMemory.block_congr
  intro i hi
  rw [Nat.zero_add]
  exact hInv.whole (by decide) hFinished hi

/- Delivering the segments in order is such a transfer. -/
theorem exists_transferred
    (content : Nat → Byte) :
    ∃ dl, Transferred content dl := by
  have hCount : segmentCount payloadSize = 512 := by decide
  rcases Reassembly.run_deliveries (by decide) (by decide)
      (by decide) content
      (Reassembly.Assembles payloadSize content)
      (fun _ hInv => hInv.toWindow)
      (fun _ pkt hInv hPart _ =>
        transferred_assembles hInv (.deliver 1 1 pkt) hPart)
      (List.nodup_range' (s := 1) (n := 512))
      (start_payloadSize content 1 0 0 [])
      (by
        intro seq hMem
        rw [List.mem_range'_1] at hMem
        rw [hCount]
        exact ⟨hMem.1, by omega, List.not_mem_nil⟩) with
    ⟨hInv, hFitted⟩
  refine ⟨_, 1, 0, 0, [],
    deliveries payloadSize content (List.range' 1 512), ?_,
    rfl, ?_⟩
  · intro e hMem
    rcases List.mem_map.mp hMem with ⟨seq, hSeq, rfl⟩
    rw [List.mem_range'_1] at hSeq
    exact partPacket_carries (by decide) (by decide) content
      hSeq.1 (by omega)
  · apply hInv.complete.mpr
    apply hInv.toWindow.allFitted_iff.mp
    intro seq hFirst hLast
    rw [hFitted]
    apply List.mem_append_right
    rw [List.mem_range'_1]
    omega

end BtPeer

------------------------------------------------------------
-- Fetching A Listed Chunk
------------------------------------------------------------

namespace BtPeer

/-
  The chunk can be read as a whole by the uploader, and what
  is hashed after any complete transfer is what was listed.
-/
structure FetchedAsListed
    (env : Env)
    (s : PeerServer)
    (hasIndex pageSize : Nat)
    (file listed : List Byte) : Prop where
  served :
    (loadData env s hasIndex).isSome = true ∧
      ∀ k, k < btChunkSize →
        Readable pageSize file
          ((getChunkOffset s hasIndex).toNat + k)
  same :
    ∀ content dl,
      loadData env s hasIndex = some content →
      Transferred content dl →
      ByteMemory.block dl.buffer 0 btChunkSize = listed

/- Chunk `i` ends inside the file. -/
def IsFullChunk
    (file : List Byte)
    (i : Nat) : Prop :=
  i * btChunkSize + btChunkSize ≤ file.length

/-
  The `int` offset of chunk `i` does not leave the file, and
  the file has the bytes of the chunk there.
-/
def MappedInPlace
    (file : List Byte)
    (i : Nat) : Prop :=
  let offset := toInt32 ((i : Int) * btChunkSize)
  0 ≤ offset ∧
    ByteMemory.block (fileView file) offset.toNat
        btChunkSize =
      ByteMemory.block (fileView file) (i * btChunkSize)
        btChunkSize

/- The offsets below 2 GiB are exact. -/
theorem mappedInPlace_of_lt
    (file : List Byte)
    {i : Nat}
    (hi : i < maxChunkNum) :
    MappedInPlace file i := by
  have hExact :
      toInt32 ((i : Int) * btChunkSize) =
        (i * btChunkSize : Nat) := by
    rw [toInt32_eq_self]
    · exact (Int.natCast_mul i btChunkSize).symm
    · simp only [btChunkSize_eq]
      omega
    · simp only [maxChunkNum_eq, btChunkSize_eq] at hi ⊢
      omega
  unfold MappedInPlace
  dsimp only
  rw [hExact, Int.toNat_natCast]
  exact ⟨Int.natCast_nonneg _, rfl⟩

/- A wrapped offset is not past the exact one. -/
theorem toInt32_toNat_le
    {n : Nat}
    (hNonneg : 0 ≤ toInt32 n) :
    (toInt32 n).toNat ≤ n := by
  unfold toInt32 at hNonneg ⊢
  rw [Int.bmod_def] at hNonneg ⊢
  split at hNonneg <;> omega

/- The bytes of a full chunk are those of the file. -/
theorem block_fileView
    {file : List Byte}
    {a n : Nat}
    (hEnd : a + n ≤ file.length) :
    ByteMemory.block (fileView file) a n =
      (file.drop a).take n := by
  apply List.ext_getElem
  · simp only [ByteMemory.block, List.length_map,
      List.length_range, List.length_take, List.length_drop]
    omega
  · intro k hk _
    simp only [ByteMemory.block, List.length_map,
      List.length_range] at hk
    have hIn : a + k < file.length := by omega
    simp only [ByteMemory.block, fileView, List.getElem_map,
      List.getElem_range, List.getElem_take,
      List.getElem_drop, List.getD_eq_getElem?_getD,
      List.getElem?_eq_getElem hIn, Option.getD_some]

section

variable {env : Env}
variable {s : PeerServer}
variable {hasIndex pageSize i : Nat}
variable {file listed : List Byte}

/- What the uploader maps for an entry with the id `i`. -/
theorem loadData_eq
    (hMap : env.mmapOk = true)
    (hFile : s.masterChunk = fileView file)
    (hId : (s.haschunks.chunks hasIndex).id = i) :
    loadData env s hasIndex =
      if 0 ≤ toInt32 ((i : Int) * btChunkSize) then
        some (fun k =>
          fileView file
            ((toInt32 ((i : Int) * btChunkSize)).toNat + k))
      else none := by
  simp only [loadData, getChunkOffset, hMap, hFile, hId,
    true_and]

/- Only full chunks are as long as what is verified. -/
theorem full_of_fetched
    (hMap : env.mmapOk = true)
    (hFile : s.masterChunk = fileView file)
    (hId : (s.haschunks.chunks hasIndex).id = i)
    (hListed : (chunkStrings file)[i]? = some listed)
    (hFetched :
      FetchedAsListed env s hasIndex pageSize file listed) :
    IsFullChunk file i ∧ MappedInPlace file i := by
  rcases chunkStrings_get hListed with ⟨hIn, hBytes⟩
  have hLoad := loadData_eq hMap hFile hId
  have hServed := hFetched.served.1
  by_cases hNonneg : 0 ≤ toInt32 ((i : Int) * btChunkSize)
  · rw [if_pos hNonneg] at hLoad
    rcases exists_transferred
        (fun k =>
          fileView file
            ((toInt32 ((i : Int) * btChunkSize)).toNat + k))
      with
      ⟨dl, hTransferred⟩
    have hSame :
        ByteMemory.block (fileView file)
            (toInt32 ((i : Int) * btChunkSize)).toNat
            btChunkSize =
          listed := by
      rw [← hFetched.same _ dl hLoad hTransferred,
        hTransferred.block_eq]
      apply ByteMemory.block_congr
      intro k _
      rw [Nat.zero_add]
    have hFull : IsFullChunk file i := by
      have hLength := congrArg List.length hSame
      rw [hBytes] at hLength
      simp only [ByteMemory.block, List.length_map,
        List.length_range, List.length_take,
        List.length_drop] at hLength
      unfold IsFullChunk
      omega
    refine ⟨hFull, hNonneg, ?_⟩
    rw [hSame, hBytes, block_fileView hFull]
  · rw [hLoad, if_neg hNonneg] at hServed
    simp at hServed

end

/-
  A listed chunk is fetched as it was listed if and only if
  it is not a short last one and is mapped where it is.
-/
theorem fetchedAsListed_iff
    (env : Env)
    (s : PeerServer)
    (hasIndex pageSize : Nat)
    (file : List Byte)
    (i : Nat)
    (listed : List Byte)
    (hMap : env.mmapOk = true)
    (hFile : s.masterChunk = fileView file)
    (hId : (s.haschunks.chunks hasIndex).id = i)
    (hListed : (chunkStrings file)[i]? = some listed) :
    FetchedAsListed env s hasIndex pageSize file listed ↔
      IsFullChunk file i ∧ MappedInPlace file i := by
  refine ⟨full_of_fetched hMap hFile hId hListed, ?_⟩
  rintro ⟨hFull, hNonneg, hPlace⟩
  have hLoad := loadData_eq hMap hFile hId
  rw [if_pos hNonneg] at hLoad
  have hOffset :
      getChunkOffset s hasIndex =
        toInt32 ((i : Int) * btChunkSize) := by
    rw [getChunkOffset, hId]
  refine ⟨⟨by rw [hLoad]; rfl, ?_⟩, ?_⟩
  · intro k hk
    have hLe :
        (toInt32 ((i : Int) * btChunkSize)).toNat ≤
          i * btChunkSize := by
      rw [← Int.natCast_mul] at hNonneg ⊢
      exact toInt32_toNat_le hNonneg
    have hPage :=
      Nat.div_mul_le_self
        ((toInt32 ((i : Int) * btChunkSize)).toNat + k)
        pageSize
    unfold IsFullChunk at hFull
    unfold Readable
    rw [hOffset]
    omega
  · intro content dl hContent hTransferred
    rw [hLoad, Option.some.injEq] at hContent
    rw [hTransferred.block_eq, ← hContent,
      (chunkStrings_get hListed).2, ← block_fileView hFull,
      ← hPlace]
    apply ByteMemory.block_congr
    intro k _
    rw [Nat.zero_add]

/- A server whose master file is `file`. -/
def serverOf (file : List Byte) : PeerServer :=
  { sampleServer with masterChunk := fileView file }

/- The first chunk of a file up to `BT_CHUNK_SIZE` long. -/
theorem chunkStrings_small
    {file : List Byte}
    (hPos : 0 < file.length)
    (hSmall : file.length ≤ btChunkSize) :
    (chunkStrings file)[0]? = some file := by
  have hIn : 0 * btChunkSize < file.length := by omega
  rw [chunkStrings,
    makeChunksLoop_get file.length file (Nat.le_refl _),
    if_pos hIn, Nat.zero_mul, List.drop_zero,
    List.take_of_length_le hSmall]

/- A file of exactly one chunk. -/
theorem fetchedAsListed_one_chunk :
    let file : List Byte := List.replicate 524288 7
    FetchedAsListed sampleEnv (serverOf file) 0 4096 file
        file ↔
      IsFullChunk file 0 ∧ MappedInPlace file 0 := by
  intro file
  have hLength : file.length = 524288 := List.length_replicate
  exact
    fetchedAsListed_iff sampleEnv (serverOf file) 0 4096 file
      0 file rfl rfl rfl
      (chunkStrings_small (by omega)
        (by rw [hLength]; exact Nat.le_refl _))

/-
  A file that is one byte short of a chunk: its only chunk is
  listed with 524287 bytes and verified with 524288.
-/
theorem short_chunk_not_fetched :
    let file : List Byte := List.replicate 524287 7
    (chunkStrings file)[0]? = some file ∧
      ¬ FetchedAsListed sampleEnv (serverOf file) 0 4096 file
        file := by
  intro file
  have hLength : file.length = 524287 := List.length_replicate
  have hListed : (chunkStrings file)[0]? = some file :=
    chunkStrings_small (by omega)
      (by rw [hLength, btChunkSize_eq]; omega)
  refine ⟨hListed, ?_⟩
  intro hFetched
  have hFull :=
    (@full_of_fetched sampleEnv (serverOf file) 0 4096 0 file
      file rfl rfl rfl hListed hFetched).1
  unfold IsFullChunk at hFull
  rw [hLength, btChunkSize_eq] at hFull
  omega

end BtPeer
