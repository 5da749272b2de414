import BtPeer.Server.Events

/-
  Connection limits: the counters of the server against the
  flags of its peers.

  Key definitions include:
    * `Books.peersWith`
    * `Books.DownloadsAdmitted`
    * `Books.UploadsAdmitted`

  Key theorems include:
    * `download_admission`
    * `upload_admission`
-/

------------------------------------------------------------
-- Counting Peers
------------------------------------------------------------

namespace BtPeer

namespace Books

/- The number of configured peers with this flag. -/
def peersWith
    (flag : Slot → Bool)
    (b : Books) : Nat :=
  Nat.count (fun p => flag (b.slot p) = true) b.count

theorem peersWith_congr
    {flag : Slot → Bool}
    {b b' : Books}
    (hCount : b'.count = b.count)
    (hFlag : ∀ q, flag (b'.slot q) = flag (b.slot q)) :
    b'.peersWith flag = b.peersWith flag := by
  unfold peersWith
  rw [hCount]
  apply Nat.count_eq_of_agree
  intro q _
  rw [hFlag q]

theorem peersWith_none
    {flag : Slot → Bool}
    {b : Books}
    (hNone : ∀ q, flag (b.slot q) = false) :
    b.peersWith flag = 0 := by
  have hCount :
      b.peersWith flag = Nat.count (fun _ => False) b.count := by
    apply Nat.count_eq_of_agree
    intro q _
    rw [hNone q]
    exact iff_of_false Bool.false_ne_true not_false
  rw [hCount, Nat.count_false]

/- Only the flag of peer `p` changed. -/
theorem peersWith_change
    {flag : Slot → Bool}
    {b b' : Books}
    {p : Nat}
    (hPeer : p < b.count)
    (hCount : b'.count = b.count)
    (hRest :
      ∀ q, q ≠ p → flag (b'.slot q) = flag (b.slot q)) :
    b'.peersWith flag +
        (if flag (b.slot p) = true then 1 else 0) =
      b.peersWith flag +
        (if flag (b'.slot p) = true then 1 else 0) := by
  unfold peersWith
  rw [hCount]
  apply Nat.count_change hPeer
  intro q hq
  rw [hRest q hq]

theorem SameDownloads.peersWith
    {b b' : Books}
    (hSame : SameDownloads b b') :
    b'.peersWith Slot.downloading =
      b.peersWith Slot.downloading := by
  apply peersWith_congr hSame.count
  exact hSame.downloading

/- A flag was raised. -/
theorem peersWith_raised
    {flag : Slot → Bool}
    {b b' : Books}
    {p : Nat}
    (hPeer : p < b.count)
    (hCount : b'.count = b.count)
    (hOld : flag (b.slot p) = false)
    (hNew : flag (b'.slot p) = true)
    (hRest :
      ∀ q, q ≠ p → flag (b'.slot q) = flag (b.slot q)) :
    b'.peersWith flag = b.peersWith flag + 1 := by
  have hChange := peersWith_change hPeer hCount hRest
  simpa [hOld, hNew] using hChange

/- A flag was lowered, when it was raised before. -/
theorem peersWith_lowered
    {flag : Slot → Bool}
    {b b' : Books}
    {p : Nat}
    (hPeer : p < b.count)
    (hCount : b'.count = b.count)
    (hNew : flag (b'.slot p) = false)
    (hRest :
      ∀ q, q ≠ p → flag (b'.slot q) = flag (b.slot q)) :
    b'.peersWith flag +
        (if flag (b.slot p) = true then 1 else 0) =
      b.peersWith flag := by
  have hChange := peersWith_change hPeer hCount hRest
  simpa [hNew] using hChange

end Books

end BtPeer

------------------------------------------------------------
-- Downloads
------------------------------------------------------------

namespace BtPeer

namespace Books

/-
  The number of downloads is counted, it is within the limit,
  and a peer with a transfer is alive.
-/
structure DownloadsAdmitted
    (limit : Int)
    (b : Books) : Prop where
  maxConn : b.maxConn = limit
  counted : b.dlNum = b.peersWith Slot.downloading
  bounded : b.dlNum ≤ max limit 0
  alive :
    ∀ p, p < b.count →
      (b.slot p).downloading = true ∨
        (b.slot p).uploading = true →
      (b.slot p).alive = true

namespace DownloadsAdmitted

variable {limit : Int}
variable {b : Books}

theorem of_sameConnections
    {b' : Books}
    (hInv : b.DownloadsAdmitted limit)
    (hSame : SameConnections b b') :
    b'.DownloadsAdmitted limit where
  maxConn := hSame.maxConn.trans hInv.maxConn
  counted := by
    rw [hSame.dlNum, hInv.counted]
    congr 1
    refine (peersWith_congr hSame.count ?_).symm
    intro q
    rw [hSame.slot]
  bounded := by
    rw [hSame.dlNum]
    exact hInv.bounded
  alive := by
    rw [hSame.count, hSame.slot]
    exact hInv.alive

theorem raise
    (hInv : b.DownloadsAdmitted limit)
    (p : Nat) :
    (b.raise p).DownloadsAdmitted limit where
  maxConn := hInv.maxConn
  counted := by
    have hSame := raise_sameDownloads b p
    rw [hSame.dlNum, hSame.peersWith]
    exact hInv.counted
  bounded := hInv.bounded
  alive := by
    intro q hq hActive
    simp only [Books.raise, setSlot_slot] at hActive ⊢
    split
    · rfl
    · rename_i hNe
      rw [if_neg hNe] at hActive
      exact hInv.alive q hq hActive

theorem beginDownload
    (hInv : b.DownloadsAdmitted limit)
    {p i : Nat}
    (hBegin : b.CanBegin p i) :
    (b.beginDownload p i).DownloadsAdmitted limit where
  maxConn := hInv.maxConn
  counted := by
    have hOne :
        (b.beginDownload p i).peersWith Slot.downloading =
          b.peersWith Slot.downloading + 1 := by
      refine
        @peersWith_raised Slot.downloading b
          (b.beginDownload p i) p hBegin.peer rfl
          hBegin.free ?_ ?_
      · simp [Books.beginDownload, Books.setState]
      · intro q hq
        simp [Books.beginDownload, Books.setState, hq]
    rw [hOne]
    change b.dlNum + 1 = _
    rw [hInv.counted]
    rfl
  bounded := by
    have hRoom := hBegin.room
    rw [hInv.maxConn] at hRoom
    change b.dlNum + 1 ≤ max limit 0
    omega
  alive := by
    intro q hq hActive
    by_cases hEq : q = p
    · subst hEq
      simpa [Books.beginDownload, Books.setState] using
        hBegin.alive
    · simp only [Books.beginDownload, Books.setState,
        setSlot_slot, if_neg hEq] at hActive ⊢
      exact hInv.alive q hq hActive

theorem endDownload
    (hInv : b.DownloadsAdmitted limit)
    {p : Nat}
    (hPeer : p < b.count)
    (hDownloading : (b.slot p).downloading = true) :
    (b.endDownload p).DownloadsAdmitted limit where
  maxConn := hInv.maxConn
  counted := by
    have hOne :
        (b.endDownload p).peersWith Slot.downloading + 1 =
          b.peersWith Slot.downloading := by
      have hLowered :=
        @peersWith_lowered Slot.downloading b
          (b.endDownload p) p hPeer rfl
          (by simp [Books.endDownload])
          (by
            intro q hq
            simp [Books.endDownload, hq])
      rwa [if_pos hDownloading] at hLowered
    change b.dlNum - 1 = _
    rw [hInv.counted, ← hOne]
    omega
  bounded := by
    have hOld := hInv.bounded
    change b.dlNum - 1 ≤ max limit 0
    omega
  alive := by
    intro q hq hActive
    by_cases hEq : q = p
    · subst hEq
      simp only [Books.endDownload, setSlot_slot, if_true]
      exact hInv.alive q hq (Or.inl hDownloading)
    · simp only [Books.endDownload, setSlot_slot,
        if_neg hEq] at hActive ⊢
      exact hInv.alive q hq hActive

theorem finishDownload
    (hInv : b.DownloadsAdmitted limit)
    {p : Nat}
    (hPeer : p < b.count)
    (hDownloading : (b.slot p).downloading = true)
    (w : Option Write) :
    (b.finishDownload p w).DownloadsAdmitted limit :=
  (hInv.endDownload hPeer hDownloading).of_sameConnections
    (finishDownload_connections b p w)

theorem drop
    (hInv : b.DownloadsAdmitted limit)
    {p : Nat}
    (hPeer : p < b.count) :
    (b.drop p).DownloadsAdmitted limit where
  maxConn := (drop_maxConn b p).trans hInv.maxConn
  counted := by
    have hLowered :=
      @peersWith_lowered Slot.downloading b (b.drop p) p
        hPeer (drop_count b p)
        (by rw [drop_slot_self])
        (by
          intro q hq
          rw [drop_slot_of_ne b hq])
    rw [drop_dlNum, hInv.counted, ← hLowered]
    split <;> omega
  bounded := by
    have hOld := hInv.bounded
    rw [drop_dlNum]
    split <;> omega
  alive := by
    intro q hq hActive
    by_cases hEq : q = p
    · subst hEq
      rw [drop_slot_self] at hActive
      simp at hActive
    · rw [drop_count] at hq
      rw [drop_slot_of_ne b hEq] at hActive ⊢
      exact hInv.alive q hq hActive

theorem load
    (hInv : b.DownloadsAdmitted limit)
    {p : Nat}
    (hAlive : (b.slot p).alive = true)
    (mapped started : Bool) :
    (b.load p mapped started).DownloadsAdmitted limit where
  maxConn := hInv.maxConn
  counted := by
    have hSame := load_sameDownloads b p mapped started
    rw [hSame.dlNum, hSame.peersWith]
    exact hInv.counted
  bounded := hInv.bounded
  alive := by
    intro q hq hActive
    by_cases hEq : q = p
    · subst hEq
      simpa [Books.load] using hAlive
    · simp only [Books.load, setSlot_slot, if_neg hEq]
        at hActive ⊢
      exact hInv.alive q hq hActive

theorem unload
    (hInv : b.DownloadsAdmitted limit)
    {p : Nat}
    (hPeer : p < b.count)
    (hUploading : (b.slot p).uploading = true) :
    (b.unload p).DownloadsAdmitted limit where
  maxConn := hInv.maxConn
  counted := by
    have hSame := unload_sameDownloads b p
    rw [hSame.dlNum, hSame.peersWith]
    exact hInv.counted
  bounded := hInv.bounded
  alive := by
    intro q hq hActive
    by_cases hEq : q = p
    · subst hEq
      simp only [Books.unload, setSlot_slot, if_true]
      exact hInv.alive q hPeer (Or.inr hUploading)
    · simp only [Books.unload, setSlot_slot, if_neg hEq]
        at hActive ⊢
      exact hInv.alive q hq hActive

theorem keeps :
    Books.Keeps (Books.DownloadsAdmitted limit) where
  raise := fun _ p hInv => hInv.raise p
  beginDownload := fun _ _ _ hBegin hInv =>
    hInv.beginDownload hBegin
  unload := fun _ _ hPeer hUploading hInv =>
    hInv.unload hPeer hUploading

end DownloadsAdmitted

end Books

/- Every event keeps the downloads admitted. -/
theorem step_downloadsAdmitted
    (sha1 : List Byte → Nat → Byte)
    {limit : Int}
    (s : PeerServer)
    (e : ServerEvent)
    (hInv : s.books.DownloadsAdmitted limit) :
    (s.step sha1 e).books.DownloadsAdmitted limit := by
  have hKeeps := @Books.DownloadsAdmitted.keeps limit
  cases e with
  | packet env pkt sender =>
      apply packet_keeps hKeeps sha1 env _ _ hInv
      · intro p hDone
        exact hInv.finishDownload
          (addr2Index_lt hDone.sender) hDone.downloading _
      · intro p hasIndex hAdmits
        exact hInv.load hAdmits.alive _ _
  | timeout env =>
      apply timeout_keeps hKeeps sha1 env _ hInv
      intro b p _ hPeer _ _ hB
      exact hB.drop hPeer
  | command env chunkfile outputfile text =>
      apply command_keeps sha1 env _ _ hInv
      · intro _ _
        exact ⟨hInv.maxConn, hInv.counted, hInv.bounded,
          hInv.alive⟩
      · intro _ getchunks _
        exact ⟨hInv.maxConn, hInv.counted, hInv.bounded,
          hInv.alive⟩

theorem peerInit_downloadsAdmitted
    (addrs : List Address)
    (masterChunk : Nat → Byte)
    (haschunks : ChunkList)
    (maxConn : Int)
    (files : CString → ByteMemory.SparseFile Byte) :
    (peerInit addrs masterChunk haschunks maxConn
      files).books.DownloadsAdmitted maxConn where
  maxConn := rfl
  counted := by
    have hNone :
        (peerInit addrs masterChunk haschunks maxConn
          files).books.peersWith Slot.downloading = 0 := by
      apply Books.peersWith_none
      intro q
      rfl
    rw [hNone]
    rfl
  bounded := Int.le_max_right maxConn 0
  alive := by
    intro p _ hActive
    rcases hActive with hActive | hActive <;>
      exact absurd hActive Bool.false_ne_true

/-
  In every run of the server, the counter of downloads is the
  number of peers with the flag, it stays within the limit,
  and the timeout check skips no active transfer.
-/
theorem download_admission
    (sha1 : List Byte → Nat → Byte)
    (addrs : List Address)
    (masterChunk : Nat → Byte)
    (haschunks : ChunkList)
    (maxConn : Int)
    (files : CString → ByteMemory.SparseFile Byte)
    (es : List ServerEvent) :
    let s :=
      EventMachine.run (PeerServer.step sha1)
        (peerInit addrs masterChunk haschunks maxConn files)
        es
    s.dlNum =
        Nat.count (fun p => (s.peer p).isDownloading = true)
          s.peerlist.count ∧
      (0 ≤ maxConn → s.dlNum ≤ maxConn) ∧
      ∀ p, p < s.peerlist.count →
        (s.peer p).isDownloading = true ∨
          (s.peer p).isUploading = true →
        (s.peer p).isAlive = true := by
  intro s
  have hInv : s.books.DownloadsAdmitted maxConn :=
    EventMachine.run_invariant
      (fun s => s.books.DownloadsAdmitted maxConn)
      (fun s e hInv => step_downloadsAdmitted sha1 s e hInv)
      (peerInit_downloadsAdmitted addrs masterChunk haschunks
        maxConn files)
      es
  refine ⟨hInv.counted, ?_, hInv.alive⟩
  intro hLimit
  calc
    s.dlNum ≤ max maxConn 0 := hInv.bounded
    _ = maxConn := Int.max_eq_left hLimit

end BtPeer

------------------------------------------------------------
-- Uploads
------------------------------------------------------------

namespace BtPeer

namespace Books

/- Everything that is about uploads is the same. -/
structure SameUploads (b b' : Books) : Prop where
  count : b'.count = b.count
  maxConn : b'.maxConn = b.maxConn
  ulNum : b'.ulNum = b.ulNum
  uploading :
    ∀ p, (b'.slot p).uploading = (b.slot p).uploading
  mapped : ∀ p, (b'.slot p).mapped = (b.slot p).mapped

theorem SameUploads.trans
    {b b' b'' : Books}
    (h : SameUploads b b')
    (h' : SameUploads b' b'') :
    SameUploads b b'' where
  count := h'.count.trans h.count
  maxConn := h'.maxConn.trans h.maxConn
  ulNum := h'.ulNum.trans h.ulNum
  uploading := fun p =>
    (h'.uploading p).trans (h.uploading p)
  mapped := fun p => (h'.mapped p).trans (h.mapped p)

theorem SameConnections.sameUploads
    {b b' : Books}
    (h : SameConnections b b') :
    SameUploads b b' where
  count := h.count
  maxConn := h.maxConn
  ulNum := h.ulNum
  uploading := fun p => by rw [h.slot]
  mapped := fun p => by rw [h.slot]

theorem sameUploads_setSlot
    {b : Books}
    {p : Nat}
    {sl : Slot}
    (hUploading : sl.uploading = (b.slot p).uploading)
    (hMapped : sl.mapped = (b.slot p).mapped) :
    SameUploads b (b.setSlot p sl) := by
  constructor
  case uploading =>
    intro q
    rw [setSlot_slot]
    split
    · rename_i hEq
      rw [hUploading, hEq]
    · rfl
  case mapped =>
    intro q
    rw [setSlot_slot]
    split
    · rename_i hEq
      rw [hMapped, hEq]
    · rfl
  all_goals rfl

theorem raise_sameUploads
    (b : Books)
    (p : Nat) :
    SameUploads b (b.raise p) :=
  sameUploads_setSlot rfl rfl

theorem beginDownload_sameUploads
    (b : Books)
    (p i : Nat) :
    SameUploads b (b.beginDownload p i) := by
  have hSlot :
      SameUploads b
        (b.setSlot p
          { b.slot p with
            downloading := true
            getIndex := i
            filename := b.dlFilename }) :=
    sameUploads_setSlot rfl rfl
  exact ⟨rfl, rfl, rfl, hSlot.uploading, hSlot.mapped⟩

theorem finishDownload_sameUploads
    (b : Books)
    (p : Nat)
    (w : Option Write) :
    SameUploads b (b.finishDownload p w) := by
  have hSlot :
      SameUploads b
        (b.setSlot p
          { b.slot p with downloading := false }) :=
    sameUploads_setSlot rfl rfl
  have hEnd : SameUploads b (b.endDownload p) :=
    ⟨rfl, rfl, rfl, hSlot.uploading, hSlot.mapped⟩
  exact hEnd.trans
    (finishDownload_connections b p w).sameUploads

/-
  The number of uploads is counted, it is within the limit,
  and every upload has its chunk mapped.
-/
structure UploadsAdmitted
    (limit : Int)
    (b : Books) : Prop where
  maxConn : b.maxConn = limit
  counted : b.ulNum = b.peersWith Slot.uploading
  bounded : b.ulNum ≤ max limit 0
  mapped :
    ∀ p, p < b.count → (b.slot p).uploading = true →
      (b.slot p).mapped = true

namespace UploadsAdmitted

variable {limit : Int}
variable {b : Books}

theorem of_sameUploads
    {b' : Books}
    (hInv : b.UploadsAdmitted limit)
    (hSame : SameUploads b b') :
    b'.UploadsAdmitted limit where
  maxConn := hSame.maxConn.trans hInv.maxConn
  counted := by
    have hNumber :
        b'.peersWith Slot.uploading =
          b.peersWith Slot.uploading := by
      apply peersWith_congr hSame.count
      exact hSame.uploading
    rw [hSame.ulNum, hNumber]
    exact hInv.counted
  bounded := by
    rw [hSame.ulNum]
    exact hInv.bounded
  mapped := by
    intro p hp hUploading
    rw [hSame.count] at hp
    rw [hSame.uploading] at hUploading
    rw [hSame.mapped]
    exact hInv.mapped p hp hUploading

theorem unload
    (hInv : b.UploadsAdmitted limit)
    {p : Nat}
    (hPeer : p < b.count)
    (hUploading : (b.slot p).uploading = true) :
    (b.unload p).UploadsAdmitted limit where
  maxConn := hInv.maxConn
  counted := by
    have hLowered :=
      @peersWith_lowered Slot.uploading b (b.unload p) p
        hPeer rfl (by simp [Books.unload])
        (by
          intro q hq
          simp [Books.unload, hq])
    rw [if_pos hUploading] at hLowered
    change b.ulNum - 1 = _
    rw [hInv.counted, ← hLowered]
    omega
  bounded := by
    have hOld := hInv.bounded
    change b.ulNum - 1 ≤ max limit 0
    omega
  mapped := by
    intro q hq hStill
    by_cases hEq : q = p
    · subst hEq
      simp [Books.unload] at hStill
    · simp only [Books.unload, setSlot_slot, if_neg hEq]
        at hStill ⊢
      exact hInv.mapped q hq hStill

theorem drop
    (hInv : b.UploadsAdmitted limit)
    {p : Nat}
    (hPeer : p < b.count) :
    (b.drop p).UploadsAdmitted limit where
  maxConn := (drop_maxConn b p).trans hInv.maxConn
  counted := by
    have hLowered :=
      @peersWith_lowered Slot.uploading b (b.drop p) p
        hPeer (drop_count b p)
        (by rw [drop_slot_self])
        (by
          intro q hq
          rw [drop_slot_of_ne b hq])
    rw [drop_ulNum, hInv.counted, ← hLowered]
    split <;> omega
  bounded := by
    have hOld := hInv.bounded
    rw [drop_ulNum]
    split <;> omega
  mapped := by
    intro q hq hStill
    by_cases hEq : q = p
    · subst hEq
      rw [drop_slot_self] at hStill
      exact absurd hStill Bool.false_ne_true
    · rw [drop_count] at hq
      rw [drop_slot_of_ne b hEq] at hStill ⊢
      exact hInv.mapped q hq hStill

theorem load_ulNum
    (b : Books)
    (p : Nat)
    (mapped : Bool) :
    (b.load p mapped true).ulNum =
      b.ulNum - (if (b.slot p).uploading then 1 else 0) +
        1 := by
  simp only [Books.load, if_true]
  split
  · rfl
  · rw [Int.sub_zero]

/- An upload that starts with its chunk mapped is admitted. -/
theorem load
    (hInv : b.UploadsAdmitted limit)
    {p : Nat}
    (hPeer : p < b.count)
    (hRoom : b.ulNum < b.maxConn) :
    (b.load p true true).UploadsAdmitted limit where
  maxConn := hInv.maxConn
  counted := by
    have hChange :=
      @peersWith_change Slot.uploading b
        (b.load p true true) p hPeer rfl
        (by
          intro q hq
          simp [Books.load, hq])
    have hNew :
        ((b.load p true true).slot p).uploading = true := by
      simp [Books.load]
    rw [if_pos hNew] at hChange
    rw [load_ulNum, hInv.counted]
    by_cases hOld : (b.slot p).uploading = true
    · rw [if_pos hOld] at hChange ⊢
      omega
    · rw [if_neg hOld] at hChange ⊢
      omega
  bounded := by
    have hOld := hInv.bounded
    rw [hInv.maxConn] at hRoom
    rw [load_ulNum]
    split <;> omega
  mapped := by
    intro q hq hUploading
    by_cases hEq : q = p
    · subst hEq
      simp [Books.load]
    · simp only [Books.load, setSlot_slot, if_neg hEq]
        at hUploading ⊢
      exact hInv.mapped q hq hUploading

theorem keeps :
    Books.Keeps (Books.UploadsAdmitted limit) where
  raise := fun b p hInv =>
    hInv.of_sameUploads (raise_sameUploads b p)
  beginDownload := fun b p i _ hInv =>
    hInv.of_sameUploads (beginDownload_sameUploads b p i)
  unload := fun _ _ hPeer hUploading hInv =>
    hInv.unload hPeer hUploading

end UploadsAdmitted

end Books

/-
  The environment lets an upload start: `mmap` maps the chunk,
  whose offset is one a file can have, and the clock is read
  behind the first segment.
-/
structure UploadCanStart
    (env : Env)
    (s : PeerServer)
    (p hasIndex : Nat) : Prop where
  mmap : env.mmapOk = true
  offset : 0 ≤ getChunkOffset s hasIndex
  clock : env.sendTs p 1 ≠ 0

theorem UploadCanStart.loadData
    {env : Env}
    {s : PeerServer}
    {p hasIndex : Nat}
    (hStart : UploadCanStart env s p hasIndex) :
    (loadData env s hasIndex).isSome = true := by
  unfold BtPeer.loadData
  dsimp only
  rw [if_pos ⟨hStart.mmap, hStart.offset⟩]
  rfl

theorem UploadCanStart.startsUpload
    {env : Env}
    {s : PeerServer}
    {p hasIndex : Nat}
    (hStart : UploadCanStart env s p hasIndex) :
    startsUpload env s p hasIndex = true := by
  unfold BtPeer.startsUpload
  rw [hStart.loadData, decide_eq_true hStart.clock]
  rfl

/- Every upload that the event starts can start. -/
def UploadsStart
    (s : PeerServer) : ServerEvent → Prop
| .packet env pkt sender =>
    ∀ p hasIndex, Admits s pkt sender p hasIndex →
      UploadCanStart env s p hasIndex
| _ => True

/- An event whose uploads start keeps the uploads admitted. -/
theorem step_uploadsAdmitted
    (sha1 : List Byte → Nat → Byte)
    {limit : Int}
    (s : PeerServer)
    (e : ServerEvent)
    (hInv : s.books.UploadsAdmitted limit)
    (hStart : UploadsStart s e) :
    (s.step sha1 e).books.UploadsAdmitted limit := by
  have hKeeps := @Books.UploadsAdmitted.keeps limit
  cases e with
  | packet env pkt sender =>
      apply packet_keeps hKeeps sha1 env _ _ hInv
      · intro p _
        exact hInv.of_sameUploads
          (Books.finishDownload_sameUploads _ p _)
      · intro p hasIndex hAdmits
        have hCan := hStart p hasIndex hAdmits
        rw [hCan.loadData, hCan.startsUpload]
        exact hInv.load (addr2Index_lt hAdmits.sender)
          hAdmits.room
  | timeout env =>
      apply timeout_keeps hKeeps sha1 env _ hInv
      intro b p _ hPeer _ _ hB
      exact hB.drop hPeer
  | command env chunkfile outputfile text =>
      apply command_keeps sha1 env _ _ hInv
      · intro _ _
        exact hInv.of_sameUploads
          ⟨rfl, rfl, rfl, fun _ => rfl, fun _ => rfl⟩
      · intro _ getchunks _
        exact hInv.of_sameUploads
          ⟨rfl, rfl, rfl, fun _ => rfl, fun _ => rfl⟩

theorem peerInit_uploadsAdmitted
    (addrs : List Address)
    (masterChunk : Nat → Byte)
    (haschunks : ChunkList)
    (maxConn : Int)
    (files : CString → ByteMemory.SparseFile Byte) :
    (peerInit addrs masterChunk haschunks maxConn
      files).books.UploadsAdmitted maxConn where
  maxConn := rfl
  counted := by
    have hNone :
        (peerInit addrs masterChunk haschunks maxConn
          files).books.peersWith Slot.uploading = 0 := by
      apply Books.peersWith_none
      intro q
      rfl
    rw [hNone]
    rfl
  bounded := Int.le_max_right maxConn 0
  mapped := by
    intro p _ hUploading
    exact absurd hUploading Bool.false_ne_true

/-
  In every run in which every upload that is started can
  start, the counter of uploads is the number of peers with
  the flag, it stays within the limit, and every peer with
  the flag has its chunk mapped.
-/
theorem upload_admission
    (sha1 : List Byte → Nat → Byte)
    (addrs : List Address)
    (masterChunk : Nat → Byte)
    (haschunks : ChunkList)
    (maxConn : Int)
    (files : CString → ByteMemory.SparseFile Byte)
    {es : List ServerEvent}
    (hStart :
      EventMachine.Along (PeerServer.step sha1) UploadsStart
        (peerInit addrs masterChunk haschunks maxConn files)
        es) :
    let s :=
      EventMachine.run (PeerServer.step sha1)
        (peerInit addrs masterChunk haschunks maxConn files)
        es
    s.ulNum =
        Nat.count (fun p => (s.peer p).isUploading = true)
          s.peerlist.count ∧
      0 ≤ s.ulNum ∧
      (0 ≤ maxConn → s.ulNum ≤ maxConn) ∧
      ∀ p, p < s.peerlist.count →
        (s.peer p).isUploading = true →
        (s.peer p).ul.data.isSome = true := by
  intro s
  have hInv : s.books.UploadsAdmitted maxConn :=
    EventMachine.run_invariant_along
      (fun s => s.books.UploadsAdmitted maxConn)
      (step_uploadsAdmitted sha1)
      (peerInit_uploadsAdmitted addrs masterChunk haschunks
        maxConn files)
      hStart
  refine ⟨hInv.counted, ?_, ?_, hInv.mapped⟩
  · change 0 ≤ s.books.ulNum
    rw [hInv.counted]
    exact Int.natCast_nonneg _
  · intro hLimit
    calc
      s.ulNum ≤ max maxConn 0 := hInv.bounded
      _ = maxConn := Int.max_eq_left hLimit

/- The only peer asks for the chunk, which can be mapped. -/
theorem upload_admission_mapped :
    let es : List ServerEvent :=
      [.packet sampleEnv (samplePacket .whohas) sampleAddress,
        .packet sampleEnv (samplePacket .get) sampleAddress]
    let s :=
      EventMachine.run (PeerServer.step (fun _ _ => 0))
        sampleServer es
    s.ulNum =
        Nat.count (fun p => (s.peer p).isUploading = true)
          s.peerlist.count ∧
      0 ≤ s.ulNum ∧
      ((0 : Int) ≤ 1 → s.ulNum ≤ 1) ∧
      ∀ p, p < s.peerlist.count →
        (s.peer p).isUploading = true →
        (s.peer p).ul.data.isSome = true := by
  apply upload_admission
  refine ⟨?_, ?_, trivial⟩
  · intro p hasIndex hAdmits
    exact absurd hAdmits.type (by decide)
  · intro p hasIndex hAdmits
    constructor
    case mmap => rfl
    case offset =>
      change (0 : Int) ≤ toInt32 (0 * btChunkSize)
      decide
    case clock =>
      change (1 : Word) ≠ 0
      decide

/-
  The same packets when `mmap` fails: the peer is marked as
  uploading, but no upload is counted and nothing is mapped.
-/
theorem upload_admission_unmapped :
    let es : List ServerEvent :=
      [.packet sampleEnv (samplePacket .whohas) sampleAddress,
        .packet { sampleEnv with mmapOk := false }
          (samplePacket .get) sampleAddress]
    let s :=
      EventMachine.run (PeerServer.step (fun _ _ => 0))
        sampleServer es
    s.ulNum = 0 ∧
      Nat.count (fun p => (s.peer p).isUploading = true)
          s.peerlist.count = 1 ∧
      (s.peer 0).isUploading = true ∧
      (s.peer 0).ul.data.isSome = false := by
  decide +kernel

end BtPeer
