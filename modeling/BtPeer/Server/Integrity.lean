import BtPeer.Server.Delivery

/-
  What is in the output file: a chunk that is marked as
  fetched is stored at its place, with its hash.

  A file is known by its name, and nobody else writes it.

  Key definitions include:
    * `Books.Intact`
    * `SaveFits`
    * `KeepsFiles`

  Key theorems include:
    * `step_intact`
    * `download_integrity`
-/

------------------------------------------------------------
-- Stored Chunks
------------------------------------------------------------

namespace BtPeer

/- The ids of a list are distinct and not negative. -/
structure ChunkList.DistinctIds (cl : ChunkList) : Prop where
  nonneg : ∀ i, i < cl.count → 0 ≤ (cl.chunks i).id
  distinct :
    ∀ i j, i < cl.count → j < cl.count →
      (cl.chunks i).id = (cl.chunks j).id → i = j

/- Where the chunk at index `i` belongs in the file. -/
def ChunkList.place
    (cl : ChunkList)
    (i : Nat) : Nat :=
  (cl.chunks i).id.toNat * btChunkSize

/- The `BT_CHUNK_SIZE` bytes have the hash of chunk `i`. -/
def ChunkList.HasHash
    (sha1 : List Byte → Nat → Byte)
    (cl : ChunkList)
    (i : Nat)
    (data : Nat → Byte) : Prop :=
  binary2hex (sha1 (ByteMemory.block data 0 btChunkSize))
      sha1HashSize =
    (cl.chunks i).sha1.take sha1HashStrSize

/- Chunk `i` is in the file, at its place. -/
def ChunkList.StoredIn
    (sha1 : List Byte → Nat → Byte)
    (cl : ChunkList)
    (i : Nat)
    (file : ByteMemory.SparseFile Byte) : Prop :=
  ∃ data,
    ByteMemory.Stores file (cl.place i) data btChunkSize ∧
      cl.HasHash sha1 i data

namespace Books

/- The lines are the same but for their states. -/
structure SameLines (b b' : Books) : Prop where
  count : b'.getchunks.count = b.getchunks.count
  id :
    ∀ k, (b'.getchunks.chunks k).id =
      (b.getchunks.chunks k).id
  sha1 :
    ∀ k, (b'.getchunks.chunks k).sha1 =
      (b.getchunks.chunks k).sha1

theorem sameLines_refl
    (b : Books) :
    SameLines b b :=
  ⟨rfl, fun _ => rfl, fun _ => rfl⟩

theorem sameLines_setState
    (b : Books)
    (i : Nat)
    (st : ChunkState) :
    SameLines b (b.setState i st) where
  count := rfl
  id := fun k => ChunkList.setState_id b.getchunks i k st
  sha1 := fun k => ChunkList.setState_sha1 b.getchunks i k st

theorem SameLines.trans
    {b b' b'' : Books}
    (h : SameLines b b')
    (h' : SameLines b' b'') :
    SameLines b b'' where
  count := h'.count.trans h.count
  id := fun k => (h'.id k).trans (h.id k)
  sha1 := fun k => (h'.sha1 k).trans (h.sha1 k)

theorem SameLines.storedIn
    {b b' : Books}
    (hLines : SameLines b b')
    {sha1 : List Byte → Nat → Byte}
    {i : Nat}
    {file : ByteMemory.SparseFile Byte}
    (hStored : b.getchunks.StoredIn sha1 i file) :
    b'.getchunks.StoredIn sha1 i file := by
  unfold ChunkList.StoredIn ChunkList.HasHash
    ChunkList.place
  rw [hLines.id, hLines.sha1]
  exact hStored

theorem SameLines.distinctIds
    {b b' : Books}
    (hLines : SameLines b b')
    (hIds : b.getchunks.DistinctIds) :
    b'.getchunks.DistinctIds where
  nonneg := by
    intro i hi
    rw [hLines.count] at hi
    rw [hLines.id]
    exact hIds.nonneg i hi
  distinct := by
    intro i j hi hj hEq
    rw [hLines.count] at hi hj
    rw [hLines.id, hLines.id] at hEq
    exact hIds.distinct i j hi hj hEq

/-
  The list is well-formed, and every fetched chunk of it is in
  the current output file.
-/
structure Intact
    (sha1 : List Byte → Nat → Byte)
    (b : Books) : Prop where
  ids : b.getchunks.DistinctIds
  stored :
    ∀ i, i < b.getchunks.count → b.state i = .fetched →
      b.getchunks.StoredIn sha1 i (b.files b.dlFilename)

namespace Intact

variable {sha1 : List Byte → Nat → Byte}
variable {b : Books}

/- The same file and no chunk more that is fetched. -/
theorem of_sameLines
    {b' : Books}
    (hInv : b.Intact sha1)
    (hLines : SameLines b b')
    (hFetched :
      ∀ i, b'.state i = .fetched → b.state i = .fetched)
    (hFile : b'.files b'.dlFilename = b.files b.dlFilename) :
    b'.Intact sha1 where
  ids := hLines.distinctIds hInv.ids
  stored := by
    intro i hi hState
    rw [hLines.count] at hi
    rw [hFile]
    exact hLines.storedIn
      (hInv.stored i hi (hFetched i hState))

theorem of_sameDownloads
    {b' : Books}
    (hInv : b.Intact sha1)
    (hSame : SameDownloads b b') :
    b'.Intact sha1 := by
  apply hInv.of_sameLines
  · exact ⟨by rw [hSame.getchunks],
      fun _ => by rw [hSame.getchunks],
      fun _ => by rw [hSame.getchunks]⟩
  · intro i hState
    rw [hSame.state] at hState
    exact hState
  · rw [hSame.files, hSame.dlFilename]

theorem beginDownload
    (hInv : b.Intact sha1)
    (p i : Nat) :
    (b.beginDownload p i).Intact sha1 := by
  apply hInv.of_sameLines
  · have hLines := sameLines_setState b i .fetching
    exact ⟨hLines.count, hLines.id, hLines.sha1⟩
  · intro k hState
    rw [beginDownload_state] at hState
    split at hState
    · exact absurd hState (by decide)
    · exact hState
  · rfl

theorem drop
    (hInv : b.Intact sha1)
    (p : Nat) :
    (b.drop p).Intact sha1 := by
  apply hInv.of_sameLines
  · have hLines : SameLines b (b.killDownload p) := by
      unfold killDownload
      split
      · have hLines :=
          sameLines_setState b (b.slot p).getIndex .unfetched
        exact ⟨hLines.count, hLines.id, hLines.sha1⟩
      · exact sameLines_refl b
    exact ⟨hLines.count, hLines.id, hLines.sha1⟩
  · intro k hState
    rw [drop_state] at hState
    split at hState
    · exact absurd hState (by decide)
    · exact hState
  · change (b.killDownload p).files
      (b.killDownload p).dlFilename = _
    unfold killDownload
    split <;> rfl

theorem keeps :
    Books.Keeps (Books.Intact sha1) where
  raise := fun b p hInv =>
    hInv.of_sameDownloads (raise_sameDownloads b p)
  beginDownload := fun _ p i _ hInv => hInv.beginDownload p i
  unload := fun b p _ _ hInv =>
    hInv.of_sameDownloads (unload_sameDownloads b p)

end Intact

end Books

end BtPeer

------------------------------------------------------------
-- Saving
------------------------------------------------------------

namespace BtPeer

namespace Books

theorem finishDownload_sameLines
    (b : Books)
    (p : Nat)
    (w : Option Write) :
    SameLines b (b.finishDownload p w) := by
  have hSave :
      SameLines (b.endDownload p)
        ((b.endDownload p).save p w) := by
    cases w with
    | none => exact sameLines_refl _
    | some w =>
        simp only [save]
        split
        · have hLines :=
            sameLines_setState (b.endDownload p)
              ((b.endDownload p).slot p).getIndex .fetched
          exact ⟨hLines.count, hLines.id, hLines.sha1⟩
        · exact ⟨rfl, fun _ => rfl, fun _ => rfl⟩
  have hRelease (b : Books) (i : Nat) :
      SameLines b (b.release i) := by
    unfold release
    split
    · exact sameLines_setState b i .unfetched
    · exact sameLines_refl b
  have hLines :=
    hSave.trans (hRelease _ (b.slot p).getIndex)
  exact ⟨hLines.count, hLines.id, hLines.sha1⟩

/- A completion writes to the file of the download. -/
theorem finishDownload_files
    (b : Books)
    (p : Nat)
    (w : Write) :
    (b.finishDownload p (some w)).files =
      Function.update b.files (b.slot p).filename
        (ByteMemory.pwrite 0 (b.files (b.slot p).filename)
          w.position w.buffer w.length) := by
  have hName :
      ((b.endDownload p).slot p).filename =
        (b.slot p).filename := by
    simp [endDownload]
  have hSave :
      ((b.endDownload p).save p (some w)).files =
        Function.update b.files (b.slot p).filename
          (ByteMemory.pwrite 0 (b.files (b.slot p).filename)
            w.position w.buffer w.length) := by
    rw [← hName]
    simp only [save]
    split <;> rfl
  unfold finishDownload release
  split <;> exact hSave

theorem finishDownload_files_none
    (b : Books)
    (p : Nat) :
    (b.finishDownload p none).files = b.files := by
  unfold finishDownload release
  split <;> rfl

@[simp] theorem finishDownload_dlFilename
    (b : Books)
    (p : Nat)
    (w : Option Write) :
    (b.finishDownload p w).dlFilename = b.dlFilename := by
  have hSave :
      ((b.endDownload p).save p w).dlFilename =
        b.dlFilename := by
    cases w with
    | none => rfl
    | some w =>
        simp only [save]
        split <;> rfl
  unfold finishDownload release
  split <;> exact hSave

/- The chunk of peer `p` is written where it belongs. -/
structure InPlace
    (b : Books)
    (p : Nat)
    (w : Write) : Prop where
  index : (b.slot p).getIndex < b.getchunks.count
  filename : (b.slot p).filename = b.dlFilename
  position :
    w.position = b.getchunks.place (b.slot p).getIndex
  length : w.length ≤ btChunkSize
  fresh :
    btChunkSize ≤ w.length ∨
      b.state (b.slot p).getIndex ≠ .fetched

/-
  The write marks no chunk of the list, and in the current
  file it touches none that is fetched.
-/
structure Harmless
    (b : Books)
    (p : Nat)
    (w : Write) : Prop where
  unmarked :
    btChunkSize ≤ w.length →
      b.getchunks.count ≤ (b.slot p).getIndex
  untouched :
    (b.slot p).filename = b.dlFilename →
    ∀ i, i < b.getchunks.count → b.state i = .fetched →
    ∀ j, j < btChunkSize →
      ¬ ByteMemory.Touches w.position w.length
        (b.getchunks.place i + j)

/- What is fetched behind a completion, but its own chunk. -/
theorem fetched_of_finishDownload
    {b : Books}
    {p i : Nat}
    {w : Option Write}
    (hOther :
      fullWrite w = true → i ≠ (b.slot p).getIndex)
    (hState :
      (b.finishDownload p w).state i = .fetched) :
    b.state i = .fetched := by
  by_cases hEq : i = (b.slot p).getIndex
  · rw [hEq, finishDownload_state_self] at hState
    by_cases hOld : b.state (b.slot p).getIndex = .fetched
    · rw [hEq]
      exact hOld
    · have hNone :
          ¬ (fullWrite w = true ∨
            b.state (b.slot p).getIndex = .fetched) :=
        fun h => h.elim (fun hFull => hOther hFull hEq) hOld
      rw [if_neg hNone] at hState
      exact absurd hState (by decide)
  · rwa [finishDownload_state_of_ne _ hEq] at hState

namespace Intact

variable {sha1 : List Byte → Nat → Byte}
variable {b : Books}

/- A completion that writes nothing. -/
theorem finishDownload_none
    (hInv : b.Intact sha1)
    (p : Nat) :
    (b.finishDownload p none).Intact sha1 := by
  apply hInv.of_sameLines (finishDownload_sameLines b p none)
  · intro i hState
    exact fetched_of_finishDownload
      (fun hFull => absurd hFull (by decide)) hState
  · rw [finishDownload_files_none, finishDownload_dlFilename]

/- A stored chunk that the write does not touch stays. -/
theorem stored_of_untouched
    (hInv : b.Intact sha1)
    {p i : Nat}
    {w : Write}
    (hi : i < b.getchunks.count)
    (hState : b.state i = .fetched)
    (hUntouched :
      (b.slot p).filename = b.dlFilename →
      ∀ j, j < btChunkSize →
        ¬ ByteMemory.Touches w.position w.length
          (b.getchunks.place i + j)) :
    b.getchunks.StoredIn sha1 i
      ((b.finishDownload p (some w)).files b.dlFilename) := by
  rcases hInv.stored i hi hState with ⟨data, hStored, hHash⟩
  refine ⟨data, ?_, hHash⟩
  rw [finishDownload_files]
  by_cases hName : (b.slot p).filename = b.dlFilename
  · rw [hName, Function.update_self]
    exact ByteMemory.stores_pwrite_of_untouched hStored
      (hUntouched hName)
  · rw [Function.update_of_ne (fun h => hName h.symm)]
    exact hStored

/- Chunks of different ids have places apart. -/
theorem place_untouched
    (hInv : b.Intact sha1)
    {i k : Nat}
    (hi : i < b.getchunks.count)
    (hk : k < b.getchunks.count)
    (hNe : i ≠ k)
    {n : Nat}
    (hn : n ≤ btChunkSize)
    {j : Nat}
    (hj : j < btChunkSize) :
    ¬ ByteMemory.Touches (b.getchunks.place k) n
      (b.getchunks.place i + j) := by
  have hIds :
      (b.getchunks.chunks i).id.toNat ≠
        (b.getchunks.chunks k).id.toNat := by
    intro hEq
    have hLow := hInv.ids.nonneg i hi
    have hLowK := hInv.ids.nonneg k hk
    exact hNe (hInv.ids.distinct i k hi hk (by omega))
  have hApart :=
    ByteMemory.slots_disjoint btChunkSize hIds
  unfold ByteMemory.Touches ChunkList.place
  omega

/- A harmless write. -/
theorem finishDownload_harmless
    (hInv : b.Intact sha1)
    {p : Nat}
    {w : Write}
    (hHarmless : b.Harmless p w) :
    (b.finishDownload p (some w)).Intact sha1 := by
  have hLines := finishDownload_sameLines b p (some w)
  refine ⟨hLines.distinctIds hInv.ids, ?_⟩
  intro i hi hState
  rw [hLines.count] at hi
  have hOld : b.state i = .fetched := by
    apply fetched_of_finishDownload _ hState
    intro hFull hEq
    have hOutside :=
      hHarmless.unmarked (of_decide_eq_true hFull)
    omega
  apply hLines.storedIn
  rw [finishDownload_dlFilename]
  exact hInv.stored_of_untouched hi hOld
    (fun hName => hHarmless.untouched hName i hi hOld)

/- A write in place, of a chunk with the right hash. -/
theorem finishDownload_inPlace
    (hInv : b.Intact sha1)
    {p : Nat}
    {w : Write}
    (hPlace : b.InPlace p w)
    (hHash :
      b.getchunks.HasHash sha1 (b.slot p).getIndex
        w.buffer) :
    (b.finishDownload p (some w)).Intact sha1 := by
  have hLines := finishDownload_sameLines b p (some w)
  refine ⟨hLines.distinctIds hInv.ids, ?_⟩
  intro i hi hState
  rw [hLines.count] at hi
  apply hLines.storedIn
  rw [finishDownload_dlFilename]
  by_cases hEq : i = (b.slot p).getIndex
  · have hFull : btChunkSize ≤ w.length := by
      by_contra hPartial
      have hOld : b.state i = .fetched := by
        apply fetched_of_finishDownload _ hState
        intro hFull
        exact absurd (of_decide_eq_true hFull) hPartial
      rw [hEq] at hOld
      exact hPlace.fresh.elim hPartial (fun h => h hOld)
    rw [hEq]
    refine ⟨w.buffer, ?_, hHash⟩
    rw [finishDownload_files, hPlace.filename,
      Function.update_self, ← hPlace.position,
      Nat.le_antisymm hPlace.length hFull]
    exact ByteMemory.stores_pwrite 0 _ _ _ _
  · have hOld : b.state i = .fetched :=
      fetched_of_finishDownload (fun _ => hEq) hState
    apply hInv.stored_of_untouched hi hOld
    intro _ j hj
    rw [hPlace.position]
    exact hInv.place_untouched hi hPlace.index hEq
      hPlace.length hj

end Intact

end Books

end BtPeer

------------------------------------------------------------
-- Events
------------------------------------------------------------

namespace BtPeer

open PeerServer

/- What is written has the hash of the chunk it is for. -/
theorem lastWrite_spec
    {sha1 : List Byte → Nat → Byte}
    {env : Env}
    {s : PeerServer}
    {pkt : Packet}
    {p : Nat}
    {w : Write}
    (hWrite : lastWrite sha1 env s pkt p = some w) :
    s.books.getchunks.HasHash sha1
        (s.books.slot p).getIndex w.buffer ∧
      w.position = savePosition env s (s.peer p).dl ∧
      w.length = min env.written btChunkSize := by
  have hBooks := updateDownload_books env s p pkt
  unfold lastWrite savedWrite at hWrite
  split at hWrite
  · rename_i hBoth
    rw [Option.some.injEq] at hWrite
    subst hWrite
    have hHash := hBoth.1
    unfold checkHashSucceed at hHash
    rw [decide_eq_true_eq, chunk_of_books hBooks p] at hHash
    exact ⟨hHash, savePosition_of_books env hBooks p, rfl⟩
  · exact absurd hWrite (by simp)

/-
  The seek goes to the place of the chunk when it succeeds and
  the offset is one that an `int` can hold, or when the chunk
  is the first of the file anyway.
-/
theorem savePosition_eq_place_iff
    (env : Env)
    (s : PeerServer)
    (dl : Download)
    (hId : 0 ≤ (s.getchunks.chunks dl.getIndex).id) :
    savePosition env s dl =
        s.getchunks.place dl.getIndex ↔
      (s.getchunks.chunks dl.getIndex).id = 0 ∨
        env.lseekOk = true ∧
          (s.getchunks.chunks dl.getIndex).id < 4096 := by
  unfold savePosition seekOffset ChunkList.place
  generalize (s.getchunks.chunks dl.getIndex).id = id at hId ⊢
  have hHigh : toInt32 (id * btChunkSize) < 2147483648 := by
    unfold toInt32
    exact Int.bmod_lt (by decide)
  have hSmall (hLt : id < 4096) :
      toInt32 (id * btChunkSize) = id * 524288 := by
    rw [btChunkSize_eq]
    exact toInt32_eq_self (by omega) (by omega)
  generalize toInt32 (id * btChunkSize) = offset
    at hHigh hSmall ⊢
  rw [btChunkSize_eq]
  by_cases hSeek : env.lseekOk = true
  · simp only [hSeek, true_and]
    split <;> omega
  · simp only [hSeek, false_and, Bool.false_eq_true, if_false,
      or_false]
    omega

/-
  Peer `p` downloads a chunk of the current list into the
  current file, and the write goes to the place of the chunk.
-/
structure SavedInPlace
    (env : Env)
    (s : PeerServer)
    (p : Nat) : Prop where
  index : (s.peer p).dl.getIndex < s.getchunks.count
  filename : (s.peer p).dl.filename = s.dlFilename
  seek :
    (s.getchunks.chunks (s.peer p).dl.getIndex).id = 0 ∨
      env.lseekOk = true ∧
        (s.getchunks.chunks (s.peer p).dl.getIndex).id < 4096
  fresh :
    btChunkSize ≤ env.written ∨
      (s.getchunks.chunks (s.peer p).dl.getIndex).state ≠
        .fetched

/-
  The write of peer `p` marks no chunk of the list, and in the
  current file it touches no chunk that is fetched.
-/
structure SavedHarmlessly
    (env : Env)
    (s : PeerServer)
    (p : Nat) : Prop where
  unmarked :
    btChunkSize ≤ env.written →
      s.getchunks.count ≤ (s.peer p).dl.getIndex
  untouched :
    (s.peer p).dl.filename = s.dlFilename →
    ∀ i, i < s.getchunks.count →
      (s.getchunks.chunks i).state = .fetched →
    ∀ j, j < btChunkSize →
      ¬ ByteMemory.Touches
        (savePosition env s (s.peer p).dl)
        (min env.written btChunkSize)
        (s.getchunks.place i + j)

/-
  The event leaves the file right: what a complete download
  writes is in place or harmless, and a GET command that
  cannot read its chunk file does not name another output
  file for chunks that are fetched.
-/
def KeepsFiles
    (sha1 : List Byte → Nat → Byte)
    (s : PeerServer) : ServerEvent → Prop
| .packet env pkt sender =>
    ∀ p, Completes env s pkt sender p →
      lastWrite sha1 env s pkt p ≠ none →
      SavedInPlace env s p ∨ SavedHarmlessly env s p
| .timeout _ => True
| .command _ chunkfile outputfile text =>
    Named chunkfile outputfile →
    parseChunk s.getchunks text = none →
      outputfile = s.dlFilename ∨
        ∀ i, i < s.getchunks.count →
          (s.getchunks.chunks i).state ≠ .fetched

/- The lists that are read have distinct ids. -/
def ListsDistinct
    (s : PeerServer) : ServerEvent → Prop
| .command _ _ _ text =>
    ∀ getchunks,
      parseChunk s.getchunks text = some getchunks →
      getchunks.DistinctIds
| _ => True

theorem SavedInPlace.inPlace
    {env : Env}
    {s : PeerServer}
    {p : Nat}
    (hSaved : SavedInPlace env s p)
    (hIds : s.getchunks.DistinctIds)
    {w : Write}
    (hPosition :
      w.position = savePosition env s (s.peer p).dl)
    (hLength : w.length = min env.written btChunkSize) :
    s.books.InPlace p w where
  index := hSaved.index
  filename := hSaved.filename
  position := by
    rw [hPosition]
    exact
      (savePosition_eq_place_iff env s (s.peer p).dl
        (hIds.nonneg _ hSaved.index)).mpr hSaved.seek
  length := by
    rw [hLength]
    exact Nat.min_le_right _ _
  fresh := by
    rw [hLength]
    rcases hSaved.fresh with hFull | hState
    · exact Or.inl (Nat.le_min.mpr ⟨hFull, Nat.le_refl _⟩)
    · exact Or.inr hState

theorem SavedHarmlessly.harmless
    {env : Env}
    {s : PeerServer}
    {p : Nat}
    (hSaved : SavedHarmlessly env s p)
    {w : Write}
    (hPosition :
      w.position = savePosition env s (s.peer p).dl)
    (hLength : w.length = min env.written btChunkSize) :
    s.books.Harmless p w where
  unmarked := by
    rw [hLength]
    intro hFull
    exact hSaved.unmarked (Nat.le_min.mp hFull).1
  untouched := by
    rw [hPosition, hLength]
    exact hSaved.untouched

/- An event that leaves the file right keeps it intact. -/
theorem step_intact
    (sha1 : List Byte → Nat → Byte)
    (s : PeerServer)
    (e : ServerEvent)
    (hInv : s.books.Intact sha1)
    (hEvent : ListsDistinct s e ∧ KeepsFiles sha1 s e) :
    (s.step sha1 e).books.Intact sha1 := by
  have hKeeps := @Books.Intact.keeps sha1
  rcases hEvent with ⟨hLists, hFiles⟩
  cases e with
  | packet env pkt sender =>
      apply packet_keeps hKeeps sha1 env _ _ hInv
      · intro p hDone
        cases hWrite : lastWrite sha1 env s pkt p with
        | none => exact hInv.finishDownload_none p
        | some w =>
            rcases lastWrite_spec hWrite with
              ⟨hHash, hPosition, hLength⟩
            have hSome : lastWrite sha1 env s pkt p ≠ none := by
              rw [hWrite]
              exact Option.some_ne_none w
            rcases hFiles p hDone hSome with
              hPlace | hHarmless
            · exact hInv.finishDownload_inPlace
                (hPlace.inPlace hInv.ids hPosition hLength)
                hHash
            · exact hInv.finishDownload_harmless
                (hHarmless.harmless hPosition hLength)
      · intro p hasIndex _
        exact hInv.of_sameDownloads
          (Books.load_sameDownloads _ p _ _)
  | timeout env =>
      apply timeout_keeps hKeeps sha1 env _ hInv
      intro b p _ _ _ _ hB
      exact hB.drop p
  | command env chunkfile outputfile text =>
      apply command_keeps sha1 env _ _ hInv
      · intro hNamed hParse
        refine ⟨hInv.ids, ?_⟩
        intro i hi hState
        rcases hFiles hNamed hParse with hSame | hNone
        · rw [show
            (s.books.rename outputfile chunkfile).dlFilename =
              s.books.dlFilename from hSame]
          exact hInv.stored i hi hState
        · exact absurd hState (hNone i hi)
      · intro _ getchunks hParse
        refine ⟨hLists getchunks hParse, ?_⟩
        intro i hi hState
        have hUnfetched := parseChunk_unfetched hParse hi
        have hFetched :
            (getchunks.chunks i).state = .fetched := hState
        rw [hUnfetched] at hFetched
        exact absurd hFetched (by decide)

end BtPeer

------------------------------------------------------------
-- Download Integrity
------------------------------------------------------------

namespace BtPeer

/-
  In every run whose lists have distinct ids and whose events
  leave the file right, every fetched chunk of the list is in
  the current output file: the bytes at its place are there,
  and they have its hash.
-/
theorem download_integrity
    (sha1 : List Byte → Nat → Byte)
    (addrs : List Address)
    (masterChunk : Nat → Byte)
    (haschunks : ChunkList)
    (maxConn : Int)
    (files : CString → ByteMemory.SparseFile Byte)
    {es : List ServerEvent}
    (hKeeps :
      EventMachine.Along (PeerServer.step sha1)
        (fun s e => ListsDistinct s e ∧ KeepsFiles sha1 s e)
        (peerInit addrs masterChunk haschunks maxConn files)
        es) :
    let s :=
      EventMachine.run (PeerServer.step sha1)
        (peerInit addrs masterChunk haschunks maxConn files)
        es
    ∀ i, i < s.getchunks.count →
      (s.getchunks.chunks i).state = .fetched →
      ∃ data,
        ByteMemory.Stores (s.files s.dlFilename)
            ((s.getchunks.chunks i).id.toNat * btChunkSize)
            data btChunkSize ∧
          binary2hex
              (sha1 (ByteMemory.block data 0 btChunkSize))
              sha1HashSize =
            (s.getchunks.chunks i).sha1.take
              sha1HashStrSize := by
  intro s
  have hInit :
      (peerInit addrs masterChunk haschunks maxConn
        files).books.Intact sha1 := by
    constructor
    case ids =>
      constructor
      · intro i hi
        exact absurd hi (Nat.not_lt_zero i)
      · intro i j hi
        exact absurd hi (Nat.not_lt_zero i)
    case stored =>
      intro i hi
      exact absurd hi (Nat.not_lt_zero i)
  have hInv : s.books.Intact sha1 :=
    EventMachine.run_invariant_along
      (fun s => s.books.Intact sha1) (step_intact sha1) hInit
      hKeeps
  exact hInv.stored

/-
  A list with the chunk `id` is read, and the only peer offers
  the chunk.
-/
def fetchEvents (id : Char) : List ServerEvent :=
  [.command sampleEnv ['a'] ['o'] (some (id :: ' ' :: zeroHash)),
    .packet sampleEnv (samplePacket .ihave) sampleAddress]

theorem fetchEvents_delivered
    {id : Char}
    (hId : id = '0' ∨ id = '1') :
    Delivered 0 sampleAddress 0
      (EventMachine.run (PeerServer.step (fun _ _ => 0))
        sampleServer (fetchEvents id)) := by
  rcases hId with rfl | rfl
  · exact ⟨by decide +kernel, by decide +kernel,
      by decide +kernel, dlInit_inOrder 1 0 0 ['o']⟩
  · exact ⟨by decide +kernel, by decide +kernel,
      by decide +kernel, dlInit_inOrder 1 0 0 ['o']⟩

theorem SavedInPlace.of_books
    {env : Env}
    {s s' : PeerServer}
    {p : Nat}
    (hSaved : SavedInPlace env s p)
    (hBooks : s'.books = s.books) :
    SavedInPlace env s' p := by
  have hList : s'.getchunks = s.getchunks :=
    congrArg Books.getchunks hBooks
  have hName : s'.dlFilename = s.dlFilename :=
    congrArg Books.dlFilename hBooks
  have hSlot : (s'.peer p).slot = (s.peer p).slot :=
    congrFun (congrArg Books.slot hBooks) p
  have hIndex :
      (s'.peer p).dl.getIndex = (s.peer p).dl.getIndex :=
    congrArg Slot.getIndex hSlot
  have hFile :
      (s'.peer p).dl.filename = (s.peer p).dl.filename :=
    congrArg Slot.filename hSlot
  constructor
  case index =>
    rw [hIndex, hList]
    exact hSaved.index
  case filename =>
    rw [hFile, hName]
    exact hSaved.filename
  case seek =>
    rw [hIndex, hList]
    exact hSaved.seek
  case fresh =>
    rw [hIndex, hList]
    exact hSaved.fresh

/- The chunk with id 0 is the first of its file. -/
theorem fetchEvents_inPlace :
    SavedInPlace sampleEnv
      (EventMachine.run (PeerServer.step (fun _ _ => 0))
        sampleServer (fetchEvents '0'))
      0 where
  index := by decide +kernel
  filename := by decide +kernel
  seek := by decide +kernel
  fresh := Or.inl (Nat.le_refl btChunkSize)

-- The list of the 512 deliveries is unfolded.
set_option maxRecDepth 4000 in
/- Fetching the first chunk of a file leaves the file right. -/
theorem fetchEvents_keepsFiles :
    EventMachine.Along (PeerServer.step (fun _ _ => 0))
      (fun s e =>
        ListsDistinct s e ∧ KeepsFiles (fun _ _ => 0) s e)
      sampleServer
      (fetchEvents '0' ++
        deliver sampleEnv sampleSegment sampleAddress
          lastSeq) := by
  have hOk (s : PeerServer) (pkt : Packet)
      (hBooks :
        s.books =
          (EventMachine.run (PeerServer.step (fun _ _ => 0))
            sampleServer (fetchEvents '0')).books)
      (hSender : addr2Index s sampleAddress = some 0) :
      ListsDistinct s (.packet sampleEnv pkt sampleAddress) ∧
        KeepsFiles (fun _ _ => 0) s
          (.packet sampleEnv pkt sampleAddress) := by
    refine ⟨trivial, ?_⟩
    intro p hDone _
    have hPeer : p = 0 :=
      Option.some.inj (hDone.sender.symm.trans hSender)
    rw [hPeer]
    exact Or.inl (fetchEvents_inPlace.of_books hBooks)
  rw [EventMachine.along_append]
  constructor
  · refine ⟨⟨?_, ?_⟩, ⟨trivial, ?_⟩, trivial⟩
    · intro getchunks hParse
      have hList := Option.some.inj hParse
      have hCount : getchunks.count = 1 := by
        rw [← hList]
        decide +kernel
      have hId : (getchunks.chunks 0).id = 0 := by
        rw [← hList]
        decide +kernel
      constructor
      · intro i hi
        rw [hCount, Nat.lt_one_iff] at hi
        rw [hi, hId]
      · intro i j hi hj _
        omega
    · intro _ hParse
      exact absurd hParse (by simp [parseChunk])
    · intro p hDone
      exact absurd hDone.type (by decide)
  · exact
      @along_deliver (fun _ _ => 0) sampleEnv 0 sampleAddress _
        (fetchEvents_delivered (Or.inl rfl)) sampleSegment
        (fun _ hk => sampleSegment_isSegment hk)
        (fun s e =>
          ListsDistinct s e ∧ KeepsFiles (fun _ _ => 0) s e)
        hOk lastSeq (Nat.le_refl lastSeq)

/- The first chunk of a file is fetched. -/
theorem download_integrity_first_chunk :
    let s :=
      EventMachine.run (PeerServer.step (fun _ _ => 0))
        (peerInit [sampleAddress] (fun _ => 7) oneChunk 1
          (fun _ _ => none))
        (fetchEvents '0' ++
          deliver sampleEnv sampleSegment sampleAddress
            lastSeq)
    ∀ i, i < s.getchunks.count →
      (s.getchunks.chunks i).state = .fetched →
      ∃ data,
        ByteMemory.Stores (s.files s.dlFilename)
            ((s.getchunks.chunks i).id.toNat * btChunkSize)
            data btChunkSize ∧
          binary2hex (fun _ => 0) sha1HashSize =
            (s.getchunks.chunks i).sha1.take
              sha1HashStrSize :=
  download_integrity (fun _ _ => 0) [sampleAddress]
    (fun _ => 7) oneChunk 1 (fun _ _ => none)
    fetchEvents_keepsFiles

/- A chunk that belongs behind the end of its file. -/
theorem misplaced_not_stored
    {s s' : PeerServer}
    {p : Nat}
    {buffer : Nat → Byte}
    (hBooks :
      s'.books =
        s.books.finishDownload p
          (some ⟨0, buffer, btChunkSize⟩))
    (hName : (s.peer p).dl.filename = s.dlFilename)
    (hEmpty : ∀ name i, s.files name i = none)
    {i : Nat}
    (hIndex : (s.peer p).dl.getIndex = i)
    (hId : (s.getchunks.chunks i).id = 1) :
    (s'.getchunks.chunks i).state = .fetched ∧
      ¬ ∃ data,
        ByteMemory.Stores (s'.files s'.dlFilename)
          ((s'.getchunks.chunks i).id.toNat * btChunkSize)
          data btChunkSize := by
  constructor
  · have hState :
        s'.books.state i =
          (s.books.finishDownload p
            (some ⟨0, buffer, btChunkSize⟩)).state i :=
      congrArg (fun b => b.state i) hBooks
    have hSelf :=
      Books.finishDownload_state_self s.books p
        (some ⟨0, buffer, btChunkSize⟩)
    rw [if_pos (Or.inl (fullWrite_chunk 0 buffer))] at hSelf
    have hSlot : (s.books.slot p).getIndex = i := hIndex
    rw [hSlot] at hSelf
    exact hState.trans hSelf
  · rintro ⟨data, hStored⟩
    have hLines :=
      Books.finishDownload_sameLines s.books p
        (some ⟨0, buffer, btChunkSize⟩)
    rw [← hBooks] at hLines
    have hFiles :=
      Books.finishDownload_files s.books p
        ⟨0, buffer, btChunkSize⟩
    rw [← hBooks] at hFiles
    have hOut : s'.dlFilename = s.dlFilename := by
      have hSame := congrArg Books.dlFilename hBooks
      rw [Books.finishDownload_dlFilename] at hSame
      exact hSame
    have hIdNew : (s'.getchunks.chunks i).id = 1 :=
      (hLines.id i).trans hId
    have hNone :
        s'.books.files s.dlFilename btChunkSize = none := by
      have hSlot : (s.books.slot p).filename = s.dlFilename :=
        hName
      rw [hFiles, hSlot, Function.update_self]
      apply ByteMemory.pwrite_past_end
      · exact hEmpty s.dlFilename btChunkSize
      · exact (Nat.zero_add btChunkSize).le
    have hFirst := hStored 0 (by decide)
    rw [hIdNew, hOut] at hFirst
    exact absurd (hNone.symm.trans hFirst) (by simp)

/- The sample environment, but `lseek` fails. -/
def seekFails : Env :=
  { sampleEnv with lseekOk := false }

theorem fetchEvents_books :
    let s :=
      EventMachine.run (PeerServer.step (fun _ _ => 0))
        sampleServer (fetchEvents '1')
    s.dlRemain = 1 ∧
      (s.peer 0).dl.filename = s.dlFilename ∧
      (s.peer 0).dl.getIndex = 0 ∧
      (s.getchunks.chunks 0).id = 1 := by
  decide +kernel

/-
  The second chunk of a file is fetched, and the seek fails:
  the chunk is written to the start of the file and marked as
  fetched, and there is nothing at its place.
-/
theorem download_integrity_seek_fails :
    let s :=
      EventMachine.run (PeerServer.step (fun _ _ => 0))
        sampleServer
        (fetchEvents '1' ++
          deliver seekFails sampleSegment sampleAddress
            lastSeq)
    (s.getchunks.chunks 0).state = .fetched ∧
      ¬ ∃ data,
        ByteMemory.Stores (s.files s.dlFilename)
          ((s.getchunks.chunks 0).id.toNat * btChunkSize)
          data btChunkSize := by
  rcases fetchEvents_books with
    ⟨hRemain, hName, hIndex, hId⟩
  rcases
      @deliver_saves (fun _ _ => 0) seekFails 0 sampleAddress
        _ (fetchEvents_delivered (Or.inr rfl)) sampleSegment
        (fun _ hk => sampleSegment_isSegment hk)
        (fun _ => by decide +kernel) rfl
        (Nat.le_refl btChunkSize) hRemain.le with
    ⟨buffer, hBooks⟩
  rw [EventMachine.run_append]
  exact misplaced_not_stored hBooks hName (fun _ _ => rfl)
    hIndex hId

end BtPeer
