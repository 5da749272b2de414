import BtPeer.Server.Integrity
import BtPeer.Server.Listing

/-
  Where `dl_save_buffer` puts a chunk, and where `load_data`
  reads one.

  Key definitions include:
    * `SeeksInPlace`
    * `AllOrNothing`
    * `ExactOffsets`

  Key theorems include:
    * `savePosition_slot`
    * `dlSaveBuffer_allOrNothing_iff`
    * `chunk_offsets_exact_iff`
-/

------------------------------------------------------------
-- Offsets
------------------------------------------------------------

namespace BtPeer

/- The offset of a chunk wraps to the offset of another one. -/
theorem toInt32_slot
    (id : Int) :
    ∃ slot : Int,
      toInt32 (id * btChunkSize) = slot * btChunkSize := by
  refine ⟨id - 8192 *
    Int.bdiv (id * btChunkSize) 4294967296, ?_⟩
  unfold toInt32
  rw [Int.bmod_eq_self_sub_mul_bdiv]
  simp only [btChunkSize_eq]
  omega

/- The offset is exact below 2 GiB. -/
theorem toInt32_exact_iff
    {id : Int}
    (hNonneg : 0 ≤ id) :
    toInt32 (id * btChunkSize) = id * btChunkSize ↔
      id < 4096 := by
  constructor
  · intro hExact
    have hHigh : toInt32 (id * btChunkSize) < 2147483648 :=
      Int.bmod_lt (by decide)
    rw [hExact, btChunkSize_eq] at hHigh
    omega
  · intro hSmall
    rw [btChunkSize_eq]
    exact toInt32_eq_self (by omega) (by omega)

/- The file position is the start of some chunk. -/
theorem savePosition_slot
    (env : Env)
    (s : PeerServer)
    (dl : Download) :
    ∃ slot : Nat,
      savePosition env s dl = slot * btChunkSize := by
  unfold savePosition
  split
  · rename_i hSeek
    rcases toInt32_slot
        (s.getchunks.chunks dl.getIndex).id with
      ⟨slot, hSlot⟩
    have hOffset : seekOffset s dl = slot * btChunkSize := hSlot
    have hNonneg := hSeek.2
    rw [hOffset, btChunkSize_eq] at hNonneg ⊢
    refine ⟨slot.toNat, ?_⟩
    omega
  · exact ⟨0, (Nat.zero_mul _).symm⟩

/- A wrong position lies in front of the chunk. -/
theorem savePosition_le
    (env : Env)
    (s : PeerServer)
    (dl : Download)
    (hNonneg : 0 ≤ (s.getchunks.chunks dl.getIndex).id) :
    savePosition env s dl ≤
      (s.getchunks.chunks dl.getIndex).id.toNat *
        btChunkSize := by
  unfold savePosition
  split
  · rename_i hSeek
    have hCast :
        (s.getchunks.chunks dl.getIndex).id * btChunkSize =
          ((s.getchunks.chunks dl.getIndex).id.toNat *
            btChunkSize : Nat) := by
      rw [Int.natCast_mul, Int.toNat_of_nonneg hNonneg]
    have hOffset := hSeek.2
    unfold seekOffset at hOffset ⊢
    rw [hCast] at hOffset ⊢
    exact toInt32_toNat_le hOffset
  · exact Nat.zero_le _

end BtPeer

------------------------------------------------------------
-- All Or Nothing
------------------------------------------------------------

namespace BtPeer

/-
  The seek goes to the place of the chunk: it succeeds and the
  offset is one that an `int` can hold, or the place is the
  start of the file.
-/
def SeeksInPlace
    (env : Env)
    (id : Int) : Prop :=
  id = 0 ∨ (env.lseekOk = true ∧ 0 ≤ id ∧ id < 4096)

/-
  What is written to the file position stands there already,
  and a full write is one of a chunk that is in place.
-/
structure WritesNothingNew
    (env : Env)
    (s : PeerServer)
    (dl : Download) : Prop where
  same :
    ∀ i, i < min env.written btChunkSize →
      (s.files dl.filename
        (savePosition env s dl + i)).getD 0 = dl.buffer i
  stored :
    btChunkSize ≤ env.written →
      0 ≤ (s.getchunks.chunks dl.getIndex).id ∧
        ByteMemory.Stores (s.files dl.filename)
          ((s.getchunks.chunks dl.getIndex).id.toNat *
            btChunkSize)
          dl.buffer btChunkSize

/-
  The bookkeeping of `dl_save_buffer` is all or nothing, and
  only the bytes of the chunk change. Bytes past the end of
  the file count as 0.
-/
structure AllOrNothing
    (env : Env)
    (s : PeerServer)
    (dl : Download) : Prop where
  stored :
    (dlSaveBuffer env s dl).2 = true →
      0 ≤ (s.getchunks.chunks dl.getIndex).id ∧
        ByteMemory.Stores
          ((dlSaveBuffer env s dl).1.files dl.filename)
          ((s.getchunks.chunks dl.getIndex).id.toNat *
            btChunkSize)
          dl.buffer btChunkSize
  counted :
    (dlSaveBuffer env s dl).2 = true →
      (dlSaveBuffer env s dl).1.getchunks =
          s.getchunks.setState dl.getIndex .fetched ∧
        (dlSaveBuffer env s dl).1.dlRemain = s.dlRemain - 1
  failed :
    (dlSaveBuffer env s dl).2 = false →
      (dlSaveBuffer env s dl).1.getchunks = s.getchunks ∧
        (dlSaveBuffer env s dl).1.dlRemain = s.dlRemain
  outside :
    ∀ i : Nat,
      ¬ ((s.getchunks.chunks dl.getIndex).id * btChunkSize ≤
            i ∧
          i < ((s.getchunks.chunks dl.getIndex).id + 1) *
            btChunkSize) →
        ((dlSaveBuffer env s dl).1.files dl.filename
          i).getD 0 =
            (s.files dl.filename i).getD 0

section

variable {env : Env}
variable {s : PeerServer}
variable {dl : Download}

/- Nothing happens when the file cannot be opened. -/
theorem dlSaveBuffer_not_opened
    (hOpen : env.openOk = false) :
    dlSaveBuffer env s dl = (s, false) := by
  unfold dlSaveBuffer
  rw [hOpen]
  exact if_neg Bool.false_ne_true

/- The file and the flag of an opened file. -/
theorem dlSaveBuffer_opened
    (hOpen : env.openOk = true) :
    (dlSaveBuffer env s dl).1.files dl.filename =
        ByteMemory.pwrite 0 (s.files dl.filename)
          (savePosition env s dl) dl.buffer
          (min env.written btChunkSize) ∧
      ((dlSaveBuffer env s dl).2 = true ↔
        btChunkSize ≤ env.written) := by
  have hWrite :
      (writeBuffer env s dl).files dl.filename =
        ByteMemory.pwrite 0 (s.files dl.filename)
          (savePosition env s dl) dl.buffer
          (min env.written btChunkSize) :=
    Function.update_self _ _ _
  unfold dlSaveBuffer
  rw [if_pos hOpen]
  dsimp only
  split
  · rename_i hFull
    exact ⟨hWrite, fun _ => hFull, fun _ => rfl⟩
  · rename_i hShort
    exact ⟨hWrite, fun h => absurd h Bool.false_ne_true,
      fun hFull => absurd hFull hShort⟩

/- The counters follow the flag in every case. -/
theorem dlSaveBuffer_counters :
    ((dlSaveBuffer env s dl).2 = true →
      (dlSaveBuffer env s dl).1.getchunks =
          s.getchunks.setState dl.getIndex .fetched ∧
        (dlSaveBuffer env s dl).1.dlRemain =
          s.dlRemain - 1) ∧
      ((dlSaveBuffer env s dl).2 = false →
        (dlSaveBuffer env s dl).1.getchunks = s.getchunks ∧
          (dlSaveBuffer env s dl).1.dlRemain =
            s.dlRemain) := by
  unfold dlSaveBuffer
  split
  · dsimp only
    split
    · exact ⟨fun _ => ⟨rfl, rfl⟩,
        fun h => absurd h.symm Bool.false_ne_true⟩
    · exact ⟨fun h => absurd h Bool.false_ne_true,
        fun _ => ⟨rfl, rfl⟩⟩
  · exact ⟨fun h => absurd h Bool.false_ne_true,
      fun _ => ⟨rfl, rfl⟩⟩

/- A seek in place moves to the chunk. -/
theorem savePosition_inPlace
    (hSeek :
      SeeksInPlace env (s.getchunks.chunks dl.getIndex).id) :
    0 ≤ (s.getchunks.chunks dl.getIndex).id ∧
      savePosition env s dl =
        (s.getchunks.chunks dl.getIndex).id.toNat *
          btChunkSize := by
  have hNonneg : 0 ≤ (s.getchunks.chunks dl.getIndex).id := by
    rcases hSeek with hZero | hSmall
    · exact hZero.ge
    · exact hSmall.2.1
  refine ⟨hNonneg,
    (savePosition_eq_place_iff env s dl hNonneg).mpr ?_⟩
  rcases hSeek with hZero | hSmall
  · exact Or.inl hZero
  · exact Or.inr ⟨hSmall.1, hSmall.2.2⟩

/- Any other seek moves to a chunk in front of it. -/
theorem savePosition_misplaced
    (hAway :
      ¬ SeeksInPlace env (s.getchunks.chunks dl.getIndex).id)
    (hNonneg : 0 ≤ (s.getchunks.chunks dl.getIndex).id) :
    savePosition env s dl + btChunkSize ≤
      (s.getchunks.chunks dl.getIndex).id.toNat *
        btChunkSize := by
  have hLe := savePosition_le env s dl hNonneg
  have hNe :
      savePosition env s dl ≠
        (s.getchunks.chunks dl.getIndex).id.toNat *
          btChunkSize := by
    intro hPlace
    apply hAway
    rcases (savePosition_eq_place_iff env s dl hNonneg).mp
        hPlace with hZero | hSmall
    · exact Or.inl hZero
    · exact Or.inr ⟨hSmall.1, hNonneg, hSmall.2⟩
  rcases savePosition_slot env s dl with ⟨slot, hSlot⟩
  rw [hSlot] at hLe hNe ⊢
  have hSlots :
      slot ≠ (s.getchunks.chunks dl.getIndex).id.toNat := by
    intro hSame
    exact hNe (by rw [hSame])
  rcases ByteMemory.slots_disjoint btChunkSize hSlots with
    hBefore | hBehind
  · exact hBefore
  · exact absurd (Nat.le_trans hBehind hLe)
      (Nat.not_le.mpr (Nat.lt_add_of_pos_right (by decide)))

/- What a misplaced write touches is outside the chunk. -/
theorem misplaced_outside
    (hAway :
      ¬ SeeksInPlace env (s.getchunks.chunks dl.getIndex).id)
    {i : Nat}
    (hi : i < btChunkSize) :
    ¬ ((s.getchunks.chunks dl.getIndex).id * btChunkSize ≤
          ((savePosition env s dl + i : Nat) : Int) ∧
        ((savePosition env s dl + i : Nat) : Int) <
          ((s.getchunks.chunks dl.getIndex).id + 1) *
            btChunkSize) := by
  rintro ⟨hLow, hHigh⟩
  rw [btChunkSize_eq] at hi hLow hHigh
  by_cases hNonneg :
      0 ≤ (s.getchunks.chunks dl.getIndex).id
  · have hBefore := savePosition_misplaced hAway hNonneg
    rw [btChunkSize_eq] at hBefore
    omega
  · omega

theorem allOrNothing_inPlace
    (hOpen : env.openOk = true)
    (hSeek :
      SeeksInPlace env (s.getchunks.chunks dl.getIndex).id) :
    AllOrNothing env s dl := by
  rcases savePosition_inPlace hSeek with ⟨hNonneg, hPlace⟩
  rcases @dlSaveBuffer_opened env s dl hOpen with
    ⟨hFile, hFlag⟩
  refine ⟨?_, dlSaveBuffer_counters.1,
    dlSaveBuffer_counters.2, ?_⟩
  · intro hOk
    rw [hFile, hPlace, Nat.min_eq_right (hFlag.mp hOk)]
    exact ⟨hNonneg, ByteMemory.stores_pwrite _ _ _ _ _⟩
  · intro i hOutside
    rw [hFile]
    apply ByteMemory.pwrite_untouched
    rintro ⟨hLow, hHigh⟩
    apply hOutside
    have hLen := Nat.min_le_right env.written btChunkSize
    rw [hPlace] at hLow hHigh
    rw [btChunkSize_eq] at hLow hHigh hLen ⊢
    omega

theorem allOrNothing_misplaced_iff
    (hOpen : env.openOk = true)
    (hAway :
      ¬ SeeksInPlace env
        (s.getchunks.chunks dl.getIndex).id) :
    AllOrNothing env s dl ↔ WritesNothingNew env s dl := by
  rcases @dlSaveBuffer_opened env s dl hOpen with
    ⟨hFile, hFlag⟩
  have hLen := Nat.min_le_right env.written btChunkSize
  have hBehind
      (hNonneg : 0 ≤ (s.getchunks.chunks dl.getIndex).id) :=
    Nat.le_trans (Nat.add_le_add_left hLen _)
      (savePosition_misplaced hAway hNonneg)
  constructor
  · intro hAll
    refine ⟨?_, ?_⟩
    · intro i hi
      have hKept :=
        hAll.outside (savePosition env s dl + i)
          (misplaced_outside hAway
            (Nat.lt_of_lt_of_le hi hLen))
      rw [hFile, ByteMemory.pwrite_touched 0 _ _
        ⟨Nat.le_add_right _ _, Nat.add_lt_add_left hi _⟩,
        Nat.add_sub_cancel_left, Option.getD_some] at hKept
      exact hKept.symm
    · intro hFull
      rcases hAll.stored (hFlag.mpr hFull) with
        ⟨hNonneg, hStored⟩
      rw [hFile, ByteMemory.stores_pwrite_behind
        (hBehind hNonneg)] at hStored
      exact ⟨hNonneg, hStored⟩
  · intro hNothing
    refine ⟨?_, dlSaveBuffer_counters.1,
      dlSaveBuffer_counters.2, ?_⟩
    · intro hOk
      rcases hNothing.stored (hFlag.mp hOk) with
        ⟨hNonneg, hStored⟩
      rw [hFile, ByteMemory.stores_pwrite_behind
        (hBehind hNonneg)]
      exact ⟨hNonneg, hStored⟩
    · intro i _
      rw [hFile]
      by_cases hTouched :
          ByteMemory.Touches (savePosition env s dl)
            (min env.written btChunkSize) i
      · have hCell :=
          hNothing.same (i - savePosition env s dl)
            (by unfold ByteMemory.Touches at hTouched; omega)
        rw [Nat.add_sub_cancel' hTouched.1] at hCell
        rw [ByteMemory.pwrite_touched 0 _ _ hTouched,
          Option.getD_some, hCell]
      · exact ByteMemory.pwrite_untouched 0 _ _ hTouched

end

/-
  Saving a chunk is all or nothing exactly when the file
  cannot be opened, the seek goes to the place of the chunk,
  or the write to another place changes nothing.
-/
theorem dlSaveBuffer_allOrNothing_iff
    (env : Env)
    (s : PeerServer)
    (dl : Download) :
    AllOrNothing env s dl ↔
      env.openOk = false ∨
        SeeksInPlace env
          (s.getchunks.chunks dl.getIndex).id ∨
        WritesNothingNew env s dl := by
  by_cases hOpen : env.openOk = true
  · by_cases hSeek :
        SeeksInPlace env (s.getchunks.chunks dl.getIndex).id
    · exact iff_of_true (allOrNothing_inPlace hOpen hSeek)
        (Or.inr (Or.inl hSeek))
    · rw [allOrNothing_misplaced_iff hOpen hSeek]
      constructor
      · intro hNothing
        exact Or.inr (Or.inr hNothing)
      · rintro (hClosed | hInPlace | hNothing)
        · rw [hOpen] at hClosed
          cases hClosed
        · exact absurd hInPlace hSeek
        · exact hNothing
  · rw [Bool.not_eq_true] at hOpen
    refine iff_of_true ?_ (Or.inl hOpen)
    have hSave := @dlSaveBuffer_not_opened env s dl hOpen
    refine ⟨?_, dlSaveBuffer_counters.1,
      dlSaveBuffer_counters.2, ?_⟩
    · rw [hSave]
      intro hOk
      exact absurd hOk Bool.false_ne_true
    · rw [hSave]
      intro i _
      rfl

/-
  The seek for the chunk 1 fails and the write does not: the
  chunk is marked as fetched, its bytes are at the start of
  the file, and there is nothing at its place.
-/
theorem saved_at_start :
    ¬ ∀ (env : Env) (s : PeerServer) (dl : Download),
        AllOrNothing env s dl := by
  intro hAll
  let s : PeerServer :=
    { sampleServer with
      getchunks :=
        { oneChunk with
          chunks := fun _ => ⟨.fetching, 1, zeroHash⟩ } }
  have hFile :=
    (@dlSaveBuffer_opened seekFails s Download.zero rfl).1
  rcases (hAll seekFails s Download.zero).stored (by decide)
    with ⟨_, hStored⟩
  have hFirst := hStored 0 (by decide)
  rw [hFile] at hFirst
  have hEmpty :
      ByteMemory.pwrite 0
          (s.files Download.zero.filename)
          (savePosition seekFails s Download.zero)
          Download.zero.buffer
          (min seekFails.written btChunkSize)
          ((s.getchunks.chunks
            Download.zero.getIndex).id.toNat *
              btChunkSize + 0) = none :=
    ByteMemory.pwrite_past_end 0 _ rfl (by decide)
  rw [hEmpty] at hFirst
  cases hFirst

end BtPeer

------------------------------------------------------------
-- Exact Offsets
------------------------------------------------------------

namespace BtPeer

/-
  For chunks with ids in `ids`: where `dl_save_buffer` seeks
  to and what `load_data` maps is at the id times the size of
  a chunk, so different chunks are apart, and both sides mean
  the same bytes.
-/
structure ExactOffsets (ids : Set Int) : Prop where
  seeks :
    ∀ (s : PeerServer) (dl : Download),
      (s.getchunks.chunks dl.getIndex).id ∈ ids →
        seekOffset s dl =
          (s.getchunks.chunks dl.getIndex).id * btChunkSize
  maps :
    ∀ (s : PeerServer) (hasIndex : Nat),
      (s.haschunks.chunks hasIndex).id ∈ ids →
        getChunkOffset s hasIndex =
          (s.haschunks.chunks hasIndex).id * btChunkSize
  apart :
    ∀ (s s' : PeerServer) (dl dl' : Download),
      (s.getchunks.chunks dl.getIndex).id ∈ ids →
      (s'.getchunks.chunks dl'.getIndex).id ∈ ids →
      (s.getchunks.chunks dl.getIndex).id ≠
          (s'.getchunks.chunks dl'.getIndex).id →
        seekOffset s dl + btChunkSize ≤ seekOffset s' dl' ∨
          seekOffset s' dl' + btChunkSize ≤ seekOffset s dl
  same :
    ∀ (s s' : PeerServer) (dl : Download) (hasIndex : Nat),
      (s.getchunks.chunks dl.getIndex).id ∈ ids →
      (s'.haschunks.chunks hasIndex).id =
          (s.getchunks.chunks dl.getIndex).id →
        getChunkOffset s' hasIndex = seekOffset s dl

/- A server whose get-chunks all have the id `id`. -/
def serverOfId (id : Int) : PeerServer :=
  { sampleServer with
    getchunks :=
      { oneChunk with
        chunks := fun _ => ⟨.unfetched, id, zeroHash⟩ } }

/-
  The offsets of a set of chunks are exact if and only if all
  ids are below 4096, which is the end of the first 2 GiB.
-/
theorem chunk_offsets_exact_iff
    {ids : Set Int}
    (hNonneg : ∀ id ∈ ids, 0 ≤ id) :
    ExactOffsets ids ↔ ∀ id ∈ ids, id < 4096 := by
  constructor
  · intro hExact id hMem
    have hSeek :=
      hExact.seeks (serverOfId id) Download.zero hMem
    exact (toInt32_exact_iff (hNonneg id hMem)).mp hSeek
  · intro hSmall
    have hOffset :
        ∀ id ∈ ids,
          toInt32 (id * btChunkSize) = id * btChunkSize := by
      intro id hMem
      exact (toInt32_exact_iff (hNonneg id hMem)).mpr
        (hSmall id hMem)
    refine ⟨?_, ?_, ?_, ?_⟩
    · intro s dl hMem
      exact hOffset _ hMem
    · intro s hasIndex hMem
      exact hOffset _ hMem
    · intro s s' dl dl' hMem hMem' hNe
      unfold seekOffset
      rw [hOffset _ hMem, hOffset _ hMem', btChunkSize_eq]
      omega
    · intro s s' dl hasIndex _ hSame
      unfold getChunkOffset seekOffset
      rw [hSame]

/- The first chunk and the last one that is exact. -/
theorem chunk_offsets_exact_ends :
    ExactOffsets {0, 4095} :=
  (chunk_offsets_exact_iff (by simp)).mpr (by simp)

/-
  The offset of chunk 4096 is 2147483648, which an `int`
  holds as -2147483648.
-/
theorem chunk_offset_wraps :
    ¬ ∀ ids : Set Int,
        (∀ id ∈ ids, 0 ≤ id ∧ id ≤ 2147483647) →
          ExactOffsets ids := by
  intro hAll
  have hExact :=
    hAll {4096} (fun id hMem => by
      rw [Set.mem_singleton_iff.mp hMem]
      decide)
  have hSeek :=
    hExact.seeks (serverOfId 4096) Download.zero rfl
  revert hSeek
  decide

end BtPeer
