import BtPeer.Library.Run
import BtPeer.Transfer.Receiver

/-
  Receiving a chunk that was cut into segments of `len`
  bytes, of which the last one may be shorter.

  The length of a segment is recorded from the first packet,
  and again from the first packet after every timeout. The
  bytes go where that length says.

  Key definitions include:
    * `segmentCount`
    * `CarriesPart`
    * `Reassembly`
    * `Reassembly.Assembles`

  Key theorems include:
    * `deliver_window`
    * `step_assembles`
    * `reassembly_complete`
-/

------------------------------------------------------------
-- Cutting A Chunk
------------------------------------------------------------

namespace BtPeer

/- How many segments of `len` bytes a chunk is cut into. -/
def segmentCount (len : Nat) : Nat :=
  (btChunkSize + len - 1) / len

/- The length of segment `seq`; the last has the remainder. -/
def segmentLen (len seq : Nat) : Nat :=
  min len (btChunkSize - (seq - 1) * len)

/- The DATA packet is a segment of `content`. -/
structure CarriesPart
    (len : Nat)
    (content : Nat → Byte)
    (pkt : Packet) : Prop where
  first : 1 ≤ pkt.seq.toNat
  last : pkt.seq.toNat ≤ segmentCount len
  dataLen : pkt.getDataLen = segmentLen len pkt.seq.toNat
  bytes :
    ∀ i, i < segmentLen len pkt.seq.toNat →
      pkt.getData i =
        content ((pkt.seq.toNat - 1) * len + i)

/- Segment `seq` of `content` is in `buffer`. -/
def PartStored
    (len : Nat)
    (content buffer : Nat → Byte)
    (seq : Nat) : Prop :=
  ∀ i, i < segmentLen len seq →
    buffer ((seq - 1) * len + i) =
      content ((seq - 1) * len + i)

section

variable {len : Nat}

theorem segmentCount_bounds
    (hLen : 1 ≤ len) :
    btChunkSize ≤ segmentCount len * len ∧
      segmentCount len * len < btChunkSize + len := by
  have hDiv :=
    Nat.div_add_mod (btChunkSize + len - 1) len
  have hMod : (btChunkSize + len - 1) % len < len :=
    Nat.mod_lt _ hLen
  unfold segmentCount
  rw [Nat.mul_comm] at hDiv
  omega

/- A segment begins inside the chunk, and ends inside it. -/
theorem segment_start_lt
    (hLen : 1 ≤ len)
    {seq : Nat}
    (hFirst : 1 ≤ seq)
    (hLast : seq ≤ segmentCount len) :
    (seq - 1) * len < btChunkSize := by
  have hBounds := (segmentCount_bounds hLen).2
  have hLe : seq * len ≤ segmentCount len * len :=
    Nat.mul_le_mul_right len hLast
  obtain ⟨k, rfl⟩ : ∃ k, seq = k + 1 :=
    Nat.exists_eq_succ_of_ne_zero (by omega)
  rw [Nat.succ_mul] at hLe
  rw [Nat.add_sub_cancel]
  omega

theorem segment_end_le
    (hLen : 1 ≤ len)
    {seq : Nat}
    (hFirst : 1 ≤ seq)
    (hLast : seq ≤ segmentCount len) :
    (seq - 1) * len + segmentLen len seq ≤ btChunkSize := by
  have hStart := segment_start_lt hLen hFirst hLast
  unfold segmentLen
  omega

theorem segmentCount_le
    (hLen : 1 ≤ len) :
    segmentCount len ≤ btChunkSize := by
  have hLt := (segmentCount_bounds hLen).2
  by_contra hGt
  have hMul :
      (btChunkSize + 1) * len ≤ segmentCount len * len :=
    Nat.mul_le_mul_right len (by omega)
  have hBig : btChunkSize ≤ btChunkSize * len :=
    Nat.le_mul_of_pos_right _ hLen
  rw [Nat.succ_mul] at hMul
  omega

/- Every byte of the chunk is in one of the segments. -/
theorem byte_in_segment
    (hLen : 1 ≤ len)
    {i : Nat}
    (hi : i < btChunkSize) :
    1 ≤ i / len + 1 ∧ i / len + 1 ≤ segmentCount len ∧
      i % len < segmentLen len (i / len + 1) := by
  have hLow := (segmentCount_bounds hLen).1
  have hDiv := Nat.div_add_mod i len
  have hMod : i % len < len := Nat.mod_lt i hLen
  refine ⟨Nat.le_add_left 1 _, ?_, ?_⟩
  · by_contra hPast
    have hMul :
        segmentCount len * len ≤ i / len * len :=
      Nat.mul_le_mul_right len (by omega)
    rw [Nat.mul_comm (i / len)] at hMul
    omega
  · unfold segmentLen
    rw [Nat.add_sub_cancel, Nat.mul_comm]
    omega

/- Different segments do not overlap. -/
theorem partStored_memcpy
    {content buffer src : Nat → Byte}
    {seq t : Nat}
    (hFirst : 1 ≤ seq)
    (hStored : PartStored len content buffer t)
    (hFirstT : 1 ≤ t)
    (hNe : t ≠ seq) :
    PartStored len content
      (ByteMemory.memcpy buffer ((seq - 1) * len) src
        (segmentLen len seq)) t := by
  intro i hi
  rw [ByteMemory.memcpy_outside]
  · exact hStored i hi
  · have hSlots :=
      ByteMemory.slots_disjoint len
        (a := t - 1) (b := seq - 1) (by omega)
    unfold segmentLen at hi ⊢
    omega

/- The completion test with the length of a segment. -/
theorem covers_chunk_iff
    (hLen : 1 ≤ len)
    {count : Nat}
    (hCount : count ≤ segmentCount len) :
    btChunkSize ≤ count * len ↔ count = segmentCount len := by
  rcases segmentCount_bounds hLen with ⟨hLow, hHigh⟩
  constructor
  · intro hCovers
    by_contra hNe
    have hMul :
        (count + 1) * len ≤ segmentCount len * len :=
      Nat.mul_le_mul_right len (by omega)
    rw [Nat.succ_mul] at hMul
    omega
  · rintro rfl
    exact hLow

end

end BtPeer

------------------------------------------------------------
-- The Receiver As A Machine
------------------------------------------------------------

namespace BtPeer

open RingWindow

/-
  A download, and the segments that were delivered at a
  moment when they fitted the receive window.
-/
structure Reassembly where
  dl : Download
  fitted : List Nat

inductive DownloadEvent where
  | deliver
      (now ts : Word)
      (pkt : Packet)
  | timeout
      (now ts : Word)

namespace Reassembly

/- The state after `dl_init`. -/
def start
    (now : Word)
    (pIndex getIndex : Nat)
    (filename : CString) : Reassembly where
  dl := dlInit now pIndex getIndex filename
  fitted := []

def step
    (s : Reassembly) : DownloadEvent → Reassembly
| .deliver now ts pkt =>
    { dl := (dlRecv now ts s.dl pkt).1
      fitted :=
        if seqFitIn s.dl.rwin pkt.seq then
          s.fitted ++ [pkt.seq.toNat]
        else s.fitted }
| .timeout now ts =>
    { s with dl := (dlCheckTimeout now ts s.dl).1 }

/- Segments are delivered, in any order, and timeouts. -/
def IsSegment
    (len : Nat)
    (content : Nat → Byte) : DownloadEvent → Prop
| .deliver _ _ pkt => CarriesPart len content pkt
| .timeout _ _ => True

/- The next packet sets the segment length. -/
def RecordsNext (dl : Download) : Prop :=
  dl.finished = false ∧
    (dl.started = false ∨ dl.blockUpdate = true)

/-
  The length is never recorded from the shorter last
  segment.
-/
def RecordsWhole
    (len : Nat)
    (s : Reassembly) : DownloadEvent → Prop
| .deliver _ _ pkt =>
    RecordsNext s.dl → segmentLen len pkt.seq.toNat = len
| .timeout _ _ => True

/- Every segment has come at a moment when it fitted. -/
def AllFitted
    (count : Nat)
    (s : Reassembly) : Prop :=
  ∀ seq, 1 ≤ seq → seq ≤ count → seq ∈ s.fitted

end Reassembly

end BtPeer

------------------------------------------------------------
-- What The Window Knows
------------------------------------------------------------

namespace BtPeer

open RingWindow

namespace Reassembly

/- The window knows which of the `count` segments fitted. -/
structure Window
    (count : Nat)
    (s : Reassembly) : Prop where
  bound : count ≤ btChunkSize
  low : 1 ≤ s.dl.rwin.nextSeq.toNat
  range : ∀ seq, seq ∈ s.fitted → 1 ≤ seq ∧ seq ≤ count
  tracks : s.dl.rwin.toRing.Tracks 1 (· ∈ s.fitted)
  missing : s.dl.rwin.nextSeq.toNat ∉ s.fitted
  expected : s.dl.nextPktExpected = s.dl.rwin.nextSeq

section

variable {count : Nat}
variable {s : Reassembly}

theorem Window.next_le
    (hWindow : s.Window count) :
    s.dl.rwin.nextSeq.toNat ≤ count + 1 := by
  by_contra hPast
  have hFitted :=
    hWindow.tracks.passed (count + 1) (by omega)
      (by rw [toRing_next]; omega)
  have hRange := hWindow.range _ hFitted
  omega

theorem Window.room
    (hWindow : s.Window count) :
    s.dl.rwin.nextSeq.toNat + 1024 < 4294967296 := by
  have hNext := hWindow.next_le
  have hBound := hWindow.bound
  simp only [btChunkSize_eq] at hBound
  omega

/- The window is past the last segment when all fitted. -/
theorem Window.allFitted_iff
    (hWindow : s.Window count) :
    s.AllFitted count ↔
      s.dl.rwin.nextSeq.toNat = count + 1 := by
  have hNext := hWindow.next_le
  have hLow := hWindow.low
  constructor
  · intro hAll
    by_contra hNe
    exact hWindow.missing (hAll _ hLow (by omega))
  · intro hEq seq hFirst hLast
    apply hWindow.tracks.passed seq hFirst
    rw [toRing_next]
    omega

/- A segment that has not come yet fits a short window. -/
theorem Window.fits_new
    (hWindow : s.Window count)
    (hCount : count ≤ recvWindowSize)
    {pkt : Packet}
    (hFirst : 1 ≤ pkt.seq.toNat)
    (hLast : pkt.seq.toNat ≤ count)
    (hNew : pkt.seq.toNat ∉ s.fitted) :
    seqFitIn s.dl.rwin pkt.seq = true := by
  rw [seqFitIn_iff _ _ hWindow.room]
  simp only [recvWindowSize_eq] at hCount
  refine ⟨?_, ?_⟩
  · by_contra hPast
    exact hNew
      (hWindow.tracks.passed _ hFirst (Nat.not_le.mp hPast))
  · have hLow := hWindow.low
    rw [toRing_next]
    omega

/- Only the window matters. -/
theorem Window.of_same
    (hWindow : s.Window count)
    {dl : Download}
    (hRwin : dl.rwin = s.dl.rwin)
    (hExpected : dl.nextPktExpected = s.dl.nextPktExpected) :
    Window count { s with dl := dl } where
  bound := hWindow.bound
  low := hRwin ▸ hWindow.low
  range := hWindow.range
  tracks := hRwin ▸ hWindow.tracks
  missing := hRwin ▸ hWindow.missing
  expected := by
    rw [hRwin, hExpected]
    exact hWindow.expected

end

theorem start_window
    {count : Nat}
    (hBound : count ≤ btChunkSize)
    (now : Word)
    (pIndex getIndex : Nat)
    (filename : CString) :
    (start now pIndex getIndex filename).Window count where
  bound := hBound
  low := Nat.le_refl 1
  range := by simp [start]
  tracks := by
    refine ⟨?_, ?_, ?_⟩
    · intro seq hFirst hPast
      have hLt : seq < 1 := hPast
      omega
    · intro seq _ _
      simp only [start, dlInit, toRing_init_has]
      simp
    · simp [start]
  missing := by simp [start]
  expected := rfl

end Reassembly

end BtPeer

------------------------------------------------------------
-- One Delivery
------------------------------------------------------------

namespace BtPeer

open RingWindow

/- The part of `dl_recv` behind its tests. -/
def acceptSegment
    (ts : Word)
    (dl : Download)
    (pkt : Packet) : Download :=
  markFinished
    { slideAck (storeSegment dl pkt) with
      ts := ts
      timeoutCnt := 0 }

/- `dl_recv` while the download is running. -/
theorem dlRecv_running
    (now ts : Word)
    {dl : Download}
    (hRunning : dl.finished = false)
    (pkt : Packet) :
    (dlRecv now ts dl pkt).1 =
      if seqFitIn dl.rwin pkt.seq = true ∧
          segmentOffset (recordLength now dl pkt) pkt.seq +
              pkt.getDataLen.toNat ≤
            btChunkSize then
        acceptSegment ts (recordLength now dl pkt) pkt
      else recordLength now dl pkt := by
  have hRwin := (recordLength_same now dl pkt).rwin
  unfold dlRecv
  rw [if_neg (by simp [hRunning])]
  dsimp only
  rw [hRwin]
  by_cases hFit : seqFitIn dl.rwin pkt.seq = true
  · by_cases hRoom :
        segmentOffset (recordLength now dl pkt) pkt.seq +
            pkt.getDataLen.toNat ≤
          btChunkSize
    · have hPass :
          ¬ (! seqFitIn dl.rwin pkt.seq ||
            decide
              (btChunkSize <
                segmentOffset (recordLength now dl pkt)
                    pkt.seq +
                  pkt.getDataLen.toNat)) = true := by
        rw [hFit, Bool.not_true, Bool.false_or,
          decide_eq_true_eq]
        exact Nat.not_lt.mpr hRoom
      rw [if_neg hPass, if_pos ⟨hFit, hRoom⟩]
      rfl
    · have hDrop :
          (! seqFitIn dl.rwin pkt.seq ||
            decide
              (btChunkSize <
                segmentOffset (recordLength now dl pkt)
                    pkt.seq +
                  pkt.getDataLen.toNat)) = true := by
        rw [decide_eq_true (Nat.not_le.mp hRoom),
          Bool.or_true]
      rw [if_pos hDrop, if_neg (fun hBoth => hRoom hBoth.2)]
  · rw [if_pos (by simp [hFit]),
      if_neg (fun hBoth => hFit hBoth.1)]

@[simp] theorem markFinished_nextPktExpected
    (dl : Download) :
    (markFinished dl).nextPktExpected =
      dl.nextPktExpected := by
  unfold markFinished
  split <;> rfl

@[simp] theorem markFinished_buffer
    (dl : Download) :
    (markFinished dl).buffer = dl.buffer := by
  unfold markFinished
  split <;> rfl

@[simp] theorem markFinished_dataLength
    (dl : Download) :
    (markFinished dl).dataLength = dl.dataLength := by
  unfold markFinished
  split <;> rfl

@[simp] theorem markFinished_started
    (dl : Download) :
    (markFinished dl).started = dl.started := by
  unfold markFinished
  split <;> rfl

@[simp] theorem markFinished_blockUpdate
    (dl : Download) :
    (markFinished dl).blockUpdate = dl.blockUpdate := by
  unfold markFinished
  split <;> rfl

theorem markFinished_finished
    {dl : Download}
    (hRunning : dl.finished = false) :
    (markFinished dl).finished = true ↔
      btChunkSize ≤
        (dl.nextPktExpected - 1).toNat * dl.dataLength := by
  unfold markFinished
  split
  · rename_i hDone
    exact iff_of_true rfl hDone
  · rename_i hDone
    exact iff_of_false (by simp [hRunning]) hDone

/- Sliding goes on to the first segment that is missing. -/
theorem slideAck_tracks
    {P : Nat → Prop}
    {dl : Download}
    (hTracks : dl.rwin.toRing.Tracks 1 P)
    (hRoom : dl.rwin.nextSeq.toNat + 1024 < 4294967296) :
    (slideAck dl).rwin.toRing.Tracks 1 P ∧
      ¬ P (slideAck dl).rwin.nextSeq.toNat ∧
      dl.rwin.nextSeq.toNat ≤
        (slideAck dl).rwin.nextSeq.toNat := by
  have hSlide :
      (slideAck dl).rwin.toRing = dl.rwin.toRing.slide :=
    toRing_slideack dl.rwin hRoom
  rcases SlotRing.tracks_slide hTracks with ⟨hSlid, hMissing⟩
  have hLe := SlotRing.slide_next_le dl.rwin.toRing
  rw [← hSlide] at hSlid hMissing hLe
  exact ⟨hSlid, hMissing, hLe⟩

namespace Reassembly

/- The window after a segment that fitted. -/
theorem acceptSegment_window
    {count : Nat}
    {s : Reassembly}
    (hWindow : s.Window count)
    {pkt : Packet}
    (hFit : seqFitIn s.dl.rwin pkt.seq = true)
    (hFirst : 1 ≤ pkt.seq.toNat)
    (hLast : pkt.seq.toNat ≤ count)
    (ts : Word) :
    Window count
      { dl := acceptSegment ts s.dl pkt
        fitted := s.fitted ++ [pkt.seq.toNat] } := by
  have hTracks := hWindow.tracks
  have hNext :
      (storeSegment s.dl pkt).rwin.nextSeq =
        s.dl.rwin.nextSeq :=
    storeSegment_nextSeq s.dl pkt
  rcases (seqFitIn_iff s.dl.rwin pkt.seq hWindow.room).mp hFit
    with ⟨hLow, hHigh⟩
  have hMarked :
      (storeSegment s.dl pkt).rwin.toRing.Tracks 1
        (· ∈ s.fitted ++ [pkt.seq.toNat]) := by
    unfold storeSegment
    split
    · rename_i hExist
      rw [seqExistIn_eq_has] at hExist
      have hMem :=
        (hTracks.window _ hLow hHigh).mp hExist
      apply hTracks.congr
      intro seq
      rw [List.mem_append, List.mem_singleton]
      constructor
      · exact Or.inl
      · rintro (hOld | rfl)
        · exact hOld
        · exact hMem
    · change
        (recvwinMark s.dl.rwin pkt.seq).toRing.Tracks 1 _
      rw [toRing_mark]
      apply (SlotRing.tracks_mark hTracks hLow hHigh).congr
      intro seq
      rw [List.mem_append, List.mem_singleton]
  rcases slideAck_tracks hMarked (by
      rw [hNext]
      exact hWindow.room) with
    ⟨hSlid, hMissing, hLe⟩
  have hLowOld := hWindow.low
  rw [hNext] at hLe
  constructor
  case bound => exact hWindow.bound
  case low =>
    simp only [acceptSegment, markFinished_rwin]
    omega
  case range =>
    intro seq hMem
    rw [List.mem_append, List.mem_singleton] at hMem
    rcases hMem with hOld | rfl
    · exact hWindow.range seq hOld
    · exact ⟨hFirst, hLast⟩
  case tracks =>
    simp only [acceptSegment, markFinished_rwin]
    exact hSlid
  case missing =>
    simp only [acceptSegment, markFinished_rwin]
    exact hMissing
  case expected =>
    simp only [acceptSegment, markFinished_rwin,
      markFinished_nextPktExpected]
    rfl

end Reassembly

end BtPeer

------------------------------------------------------------
-- Assembling With The Right Length
------------------------------------------------------------

namespace BtPeer

open RingWindow

namespace Reassembly

/-
  The segments that fitted are stored, the recorded length
  is `len`, and the download is finished behind the last
  segment.
-/
structure Assembles
    (len : Nat)
    (content : Nat → Byte)
    (s : Reassembly) : Prop
    extends Window (segmentCount len) s where
  parts :
    ∀ seq, seq ∈ s.fitted →
      PartStored len content s.dl.buffer seq
  length : s.dl.started = true → s.dl.dataLength = len
  complete :
    s.dl.finished = true ↔
      s.dl.rwin.nextSeq.toNat = segmentCount len + 1

section

variable {len : Nat}
variable {content : Nat → Byte}
variable {s : Reassembly}

theorem start_assembles
    (hLen : 1 ≤ len)
    (now : Word)
    (pIndex getIndex : Nat)
    (filename : CString) :
    (start now pIndex getIndex filename).Assembles len
      content where
  toWindow :=
    start_window (segmentCount_le hLen) now pIndex getIndex
      filename
  parts := by simp [start]
  length := by simp [start, dlInit, Download.zero]
  complete := by
    have hBounds := (segmentCount_bounds hLen).1
    have hPos : 0 < segmentCount len := by
      apply Nat.pos_of_ne_zero
      intro hZero
      rw [hZero, Nat.zero_mul] at hBounds
      exact absurd hBounds (by decide)
    have hOne :
        (start now pIndex getIndex
          filename).dl.rwin.nextSeq.toNat = 1 := rfl
    rw [hOne]
    constructor
    · intro hFinished
      simp [start, dlInit, Download.zero] at hFinished
    · omega

/- The length that the next segment is stored with. -/
theorem Assembles.recordLength
    (hInv : s.Assembles len content)
    {pkt : Packet}
    (hPart : CarriesPart len content pkt)
    (hWhole :
      RecordsNext s.dl → segmentLen len pkt.seq.toNat = len)
    (hRunning : s.dl.finished = false)
    (now : Word) :
    (BtPeer.recordLength now s.dl pkt).dataLength = len := by
  unfold BtPeer.recordLength
  split
  · rename_i hStarted
    rw [Bool.and_eq_true] at hStarted
    exact hInv.length hStarted.1
  · rename_i hRecords
    have hNext : RecordsNext s.dl := by
      refine ⟨hRunning, ?_⟩
      cases hStarted : s.dl.started with
      | false => exact Or.inl rfl
      | true =>
          right
          simpa [hStarted] using hRecords
    rw [hPart.dataLen, hWhole hNext, Int.toNat_natCast]

/- Where a segment goes, and that it is inside the chunk. -/
theorem segmentOffset_of_length
    {dl : Download}
    (hLength : dl.dataLength = len)
    {seq : Word}
    (hFirst : 1 ≤ seq.toNat) :
    segmentOffset dl seq = (seq.toNat - 1) * len := by
  have hPred : (seq - 1).toNat = seq.toNat - 1 := by bv_omega
  rw [segmentOffset, hLength, hPred]

/- Storing a segment that fits. -/
theorem storeSegment_parts
    (hWindow : s.Window (segmentCount len))
    (hParts :
      ∀ seq, seq ∈ s.fitted →
        PartStored len content s.dl.buffer seq)
    (hLength : s.dl.dataLength = len)
    {pkt : Packet}
    (hPart : CarriesPart len content pkt)
    (hFit : seqFitIn s.dl.rwin pkt.seq = true) :
    ∀ seq, seq ∈ s.fitted ++ [pkt.seq.toNat] →
      PartStored len content (storeSegment s.dl pkt).buffer
        seq := by
  rcases (seqFitIn_iff s.dl.rwin pkt.seq hWindow.room).mp hFit
    with ⟨hLow, hHigh⟩
  intro seq hMem
  rw [List.mem_append, List.mem_singleton] at hMem
  unfold storeSegment
  split
  · rename_i hExist
    rw [seqExistIn_eq_has] at hExist
    rcases hMem with hOld | rfl
    · exact hParts seq hOld
    · exact hParts _
        ((hWindow.tracks.window _ hLow hHigh).mp hExist)
  · have hOffset :=
      segmentOffset_of_length hLength hPart.first
    have hSize :
        pkt.getDataLen.toNat =
          segmentLen len pkt.seq.toNat := by
      rw [hPart.dataLen, Int.toNat_natCast]
    dsimp only
    rw [hOffset, hSize]
    by_cases hEq : seq = pkt.seq.toNat
    · subst hEq
      intro i hi
      rw [ByteMemory.memcpy_inside _ _ hi]
      exact hPart.bytes i hi
    · rcases hMem with hOld | hNew
      · exact partStored_memcpy hPart.first
          (hParts seq hOld) (hWindow.range seq hOld).1 hEq
      · exact absurd hNew hEq

/- Accepting a segment that fits. -/
theorem acceptSegment_assembles
    (hLen : 1 ≤ len)
    (hWindow : s.Window (segmentCount len))
    (hParts :
      ∀ seq, seq ∈ s.fitted →
        PartStored len content s.dl.buffer seq)
    (hLength : s.dl.dataLength = len)
    (hRunning : s.dl.finished = false)
    {pkt : Packet}
    (hPart : CarriesPart len content pkt)
    (hFit : seqFitIn s.dl.rwin pkt.seq = true)
    (ts : Word) :
    Assembles len content
      { dl := acceptSegment ts s.dl pkt
        fitted := s.fitted ++ [pkt.seq.toNat] } := by
  have hAfter :=
    acceptSegment_window hWindow hFit hPart.first hPart.last
      ts
  have hSlidRunning :
      ({ slideAck (storeSegment s.dl pkt) with
          ts := ts
          timeoutCnt := 0 } : Download).finished = false := by
    calc
      _ = s.dl.finished := storeSegment_finished s.dl pkt
      _ = false := hRunning
  refine ⟨hAfter, ?_, ?_, ?_⟩
  · simp only [acceptSegment, markFinished_buffer]
    exact storeSegment_parts hWindow hParts hLength hPart hFit
  · intro _
    simp only [acceptSegment, markFinished_dataLength]
    exact (storeSegment_dataLength s.dl pkt).trans hLength
  · have hNextLe := hAfter.next_le
    have hNextLow := hAfter.low
    have hDone := markFinished_finished hSlidRunning
    simp only [acceptSegment, markFinished_rwin]
      at hNextLe hNextLow ⊢
    rw [hDone]
    have hPred :
        ((slideAck
            (storeSegment s.dl pkt)).nextPktExpected -
            1).toNat =
          (slideAck
            (storeSegment s.dl pkt)).rwin.nextSeq.toNat -
            1 := by
      simp only [slideAck] at hNextLow ⊢
      bv_omega
    simp only [hPred, slideAck_dataLength,
      storeSegment_dataLength, hLength]
    rw [covers_chunk_iff hLen (by omega)]
    omega

/- Behind the last segment nothing fits. -/
theorem deliver_finished
    (hInv : s.Assembles len content)
    (hFinished : s.dl.finished = true)
    {pkt : Packet}
    (hPart : CarriesPart len content pkt)
    (now ts : Word) :
    s.step (.deliver now ts pkt) = s := by
  have hNext := hInv.complete.mp hFinished
  have hLast := hPart.last
  have hFit : ¬ seqFitIn s.dl.rwin pkt.seq = true := by
    rw [seqFitIn_iff _ _ hInv.room, toRing_next]
    omega
  simp only [step, hFit, dlRecv, hFinished, if_true]
  rfl

/- Delivering a segment. -/
theorem deliver_assembles
    (hLen : 1 ≤ len)
    (hInv : s.Assembles len content)
    {pkt : Packet}
    (hPart : CarriesPart len content pkt)
    (hWhole :
      RecordsNext s.dl → segmentLen len pkt.seq.toNat = len)
    (now ts : Word) :
    (s.step (.deliver now ts pkt)).Assembles len content := by
  by_cases hFinished : s.dl.finished = true
  · rw [deliver_finished hInv hFinished hPart]
    exact hInv
  · rw [Bool.not_eq_true] at hFinished
    have hSame := recordLength_same now s.dl pkt
    have hLength :=
      hInv.recordLength hPart hWhole hFinished now
    have hWindow :=
      hInv.toWindow.of_same hSame.rwin hSame.nextPktExpected
    have hParts :
        ∀ seq, seq ∈ s.fitted →
          PartStored len content
            (BtPeer.recordLength now s.dl pkt).buffer seq := by
      rw [hSame.buffer]
      exact hInv.parts
    simp only [step, dlRecv_running now ts hFinished]
    generalize BtPeer.recordLength now s.dl pkt = dl
      at hSame hLength hWindow hParts ⊢
    by_cases hFit : seqFitIn s.dl.rwin pkt.seq = true
    · have hFitRecorded : seqFitIn dl.rwin pkt.seq = true := by
        rw [hSame.rwin]
        exact hFit
      have hInside :
          segmentOffset dl pkt.seq + pkt.getDataLen.toNat ≤
            btChunkSize := by
        rw [segmentOffset_of_length hLength hPart.first,
          hPart.dataLen, Int.toNat_natCast]
        exact segment_end_le hLen hPart.first hPart.last
      rw [if_pos ⟨hFit, hInside⟩, if_pos hFit]
      exact acceptSegment_assembles hLen hWindow hParts hLength
        (hSame.finished.trans hFinished) hPart hFitRecorded ts
    · rw [if_neg (fun hBoth => hFit hBoth.1), if_neg hFit]
      refine ⟨hWindow, hParts, fun _ => hLength, ?_⟩
      simp only [hSame.rwin, hSame.finished]
      exact hInv.complete

end

end Reassembly

end BtPeer

------------------------------------------------------------
-- Timeouts
------------------------------------------------------------

namespace BtPeer

open RingWindow

namespace Reassembly

section

variable {len : Nat}
variable {content : Nat → Byte}
variable {s : Reassembly}

/- The window stands in front of a missing segment. -/
theorem slideAck_assembles
    (hInv : s.Assembles len content) :
    Assembles len content { s with dl := slideAck s.dl } := by
  rcases slideAck_tracks hInv.tracks hInv.room with
    ⟨hTracks, hMissing, hLe⟩
  have hFree :
      s.dl.rwin.toRing.has s.dl.rwin.nextSeq.toNat = false := by
    rw [Bool.eq_false_iff]
    intro hHas
    apply hInv.missing
    exact
      (hInv.tracks.window _ (Nat.le_refl _)
        (Nat.lt_add_of_pos_right (by decide))).mp hHas
  have hSlide := toRing_slideack s.dl.rwin hInv.room
  rw [SlotRing.slide_eq_self hFree] at hSlide
  have hNext :
      (slideAck s.dl).rwin.nextSeq.toNat =
        s.dl.rwin.nextSeq.toNat :=
    congrArg SlotRing.next hSlide
  refine ⟨⟨hInv.bound, Nat.le_trans hInv.low hLe, hInv.range,
    hTracks, hMissing, rfl⟩, hInv.parts, hInv.length, ?_⟩
  rw [hNext]
  exact hInv.complete

theorem lossAcks_assembles
    (k : Nat)
    (hInv : s.Assembles len content) :
    Assembles len content
      { s with dl := (lossAcks k s.dl).1 } := by
  induction k generalizing s with
  | zero => exact hInv
  | succ k ih => exact ih (slideAck_assembles hInv)

/- A timeout repeats acknowledgements, nothing else. -/
theorem timeout_assembles
    (hInv : s.Assembles len content)
    (now ts : Word) :
    (s.step (.timeout now ts)).Assembles len content := by
  simp only [step, dlCheckTimeout]
  split
  · exact hInv
  · split
    · exact hInv
    · split
      · exact hInv
      · have hCounted :
            Assembles len content
              { s with
                dl :=
                  { s.dl with
                    timeoutCnt := s.dl.timeoutCnt + 1 } } :=
          ⟨hInv.toWindow.of_same rfl rfl, hInv.parts,
            hInv.length, hInv.complete⟩
        have hLoss := lossAcks_assembles lossAckNum hCounted
        exact ⟨hLoss.toWindow.of_same rfl rfl, hLoss.parts,
          hLoss.length, hLoss.complete⟩

theorem step_assembles
    (hLen : 1 ≤ len)
    (e : DownloadEvent)
    (hInv : s.Assembles len content)
    (hEvent : IsSegment len content e ∧ s.RecordsWhole len e) :
    (s.step e).Assembles len content := by
  cases e with
  | deliver now ts pkt =>
      exact deliver_assembles hLen hInv hEvent.1 hEvent.2 now
        ts
  | timeout now ts => exact timeout_assembles hInv now ts

/- A finished download has the whole chunk. -/
theorem Assembles.whole
    (hLen : 1 ≤ len)
    (hInv : s.Assembles len content)
    (hFinished : s.dl.finished = true)
    {i : Nat}
    (hi : i < btChunkSize) :
    s.dl.buffer i = content i := by
  have hAll :=
    hInv.toWindow.allFitted_iff.mpr
      (hInv.complete.mp hFinished)
  rcases byte_in_segment hLen hi with ⟨hFirst, hLast, hIn⟩
  have hStored :=
    hInv.parts _ (hAll _ hFirst hLast) (i % len) hIn
  have hSplit : (i / len + 1 - 1) * len + i % len = i := by
    rw [Nat.add_sub_cancel, Nat.mul_comm]
    exact Nat.div_add_mod i len
  rwa [hSplit] at hStored

end

end Reassembly

end BtPeer

------------------------------------------------------------
-- The Last Segment First
------------------------------------------------------------

namespace BtPeer

open EventMachine

namespace Reassembly

/-
  The length was recorded from a last segment of `short`
  bytes, and there was no timeout since.
-/
structure Stuck
    (len short : Nat)
    (s : Reassembly) : Prop
    extends Window (segmentCount len) s where
  started : s.dl.started = true
  settled : s.dl.blockUpdate = false
  length : s.dl.dataLength = short
  running : s.dl.finished = false

section

variable {len short : Nat}
variable {s : Reassembly}
variable {content : Nat → Byte}

/- Storing a segment under a length that is too small. -/
theorem Stuck.acceptSegment
    (hShort : segmentCount len * short < btChunkSize)
    (hStuck : s.Stuck len short)
    {pkt : Packet}
    (hPart : CarriesPart len content pkt)
    (hFit : seqFitIn s.dl.rwin pkt.seq = true)
    (ts : Word) :
    Stuck len short
      { dl := BtPeer.acceptSegment ts s.dl pkt
        fitted := s.fitted ++ [pkt.seq.toNat] } := by
  have hWindow :=
    acceptSegment_window hStuck.toWindow hFit hPart.first
      hPart.last ts
  have hFlags :
      (storeSegment s.dl pkt).started = s.dl.started ∧
        (storeSegment s.dl pkt).blockUpdate =
          s.dl.blockUpdate := by
    unfold storeSegment
    split <;> exact ⟨rfl, rfl⟩
  have hRunning :
      ({ slideAck (storeSegment s.dl pkt) with
          ts := ts
          timeoutCnt := 0 } : Download).finished = false :=
    (storeSegment_finished s.dl pkt).trans hStuck.running
  refine ⟨hWindow, ?_, ?_, ?_, ?_⟩
  · simp only [BtPeer.acceptSegment, markFinished_started]
    exact hFlags.1.trans hStuck.started
  · simp only [BtPeer.acceptSegment,
      markFinished_blockUpdate]
    exact hFlags.2.trans hStuck.settled
  · simp only [BtPeer.acceptSegment, markFinished_dataLength]
    exact (storeSegment_dataLength s.dl pkt).trans
      hStuck.length
  · have hNext := hWindow.next_le
    have hLow := hWindow.low
    have hDone := markFinished_finished hRunning
    simp only [BtPeer.acceptSegment, markFinished_rwin]
      at hNext hLow ⊢
    rw [Bool.eq_false_iff, ne_eq, hDone, Nat.not_le]
    simp only [storeSegment_dataLength, hStuck.length,
      slideAck] at hNext hLow ⊢
    refine Nat.lt_of_le_of_lt ?_ hShort
    apply Nat.mul_le_mul_right
    bv_omega

/- Delivering a segment once the length is recorded. -/
theorem Stuck.of_recorded
    (hLen : 1 ≤ len)
    (hLe : short ≤ len)
    (hShort : segmentCount len * short < btChunkSize)
    (hRunning : s.dl.finished = false)
    {now : Word}
    {pkt : Packet}
    (hRecorded :
      Stuck len short
        { s with dl := BtPeer.recordLength now s.dl pkt })
    (hPart : CarriesPart len content pkt)
    (hFit : seqFitIn s.dl.rwin pkt.seq = true)
    (ts : Word) :
    (s.step (.deliver now ts pkt)).Stuck len short := by
  have hRwin := (recordLength_same now s.dl pkt).rwin
  simp only [step, dlRecv_running now ts hRunning]
  generalize BtPeer.recordLength now s.dl pkt = dl
    at hRecorded hRwin ⊢
  have hLength : dl.dataLength = short := hRecorded.length
  have hInside :
      segmentOffset dl pkt.seq + pkt.getDataLen.toNat ≤
        btChunkSize := by
    rw [segmentOffset_of_length hLength hPart.first,
      hPart.dataLen, Int.toNat_natCast]
    exact Nat.le_trans
      (Nat.add_le_add_right (Nat.mul_le_mul_left _ hLe) _)
      (segment_end_le hLen hPart.first hPart.last)
  have hFitRecorded : seqFitIn dl.rwin pkt.seq = true := by
    rw [hRwin]
    exact hFit
  rw [if_pos ⟨hFit, hInside⟩, if_pos hFit]
  exact hRecorded.acceptSegment hShort hPart hFitRecorded ts

/- The segments after that one. -/
theorem Stuck.deliver
    (hLen : 1 ≤ len)
    (hLe : short ≤ len)
    (hShort : segmentCount len * short < btChunkSize)
    (hStuck : s.Stuck len short)
    {pkt : Packet}
    (hPart : CarriesPart len content pkt)
    (hFit : seqFitIn s.dl.rwin pkt.seq = true)
    (now ts : Word) :
    (s.step (.deliver now ts pkt)).Stuck len short := by
  have hSame := recordLength_same now s.dl pkt
  have hFlags :
      (BtPeer.recordLength now s.dl pkt).started = true ∧
        (BtPeer.recordLength now s.dl pkt).blockUpdate =
          false ∧
        (BtPeer.recordLength now s.dl pkt).dataLength =
          short := by
    unfold BtPeer.recordLength
    simp [hStuck.started, hStuck.settled, hStuck.length]
  exact .of_recorded hLen hLe hShort hStuck.running
    ⟨hStuck.toWindow.of_same hSame.rwin
        hSame.nextPktExpected, hFlags.1, hFlags.2.1,
      hFlags.2.2, hSame.finished.trans hStuck.running⟩
    hPart hFit ts

/- The first delivery is that of the last segment. -/
theorem stuck_start
    (hLen : 1 ≤ len)
    (hShort :
      segmentCount len * segmentLen len (segmentCount len) <
        btChunkSize)
    (hCount : segmentCount len ≤ recvWindowSize)
    {pkt : Packet}
    (hPart : CarriesPart len content pkt)
    (hSeq : pkt.seq.toNat = segmentCount len)
    (now ts : Word) :
    ((start now 0 0 []).step
        (.deliver now ts pkt)).Stuck len
      (segmentLen len (segmentCount len)) := by
  have hWindow :=
    start_window (segmentCount_le hLen) now 0 0 []
  have hSame :=
    recordLength_same now (start now 0 0 []).dl pkt
  have hLength :
      (BtPeer.recordLength now (start now 0 0 []).dl
        pkt).dataLength =
          segmentLen len (segmentCount len) := by
    rw [← hSeq]
    calc
      _ = pkt.getDataLen.toNat := rfl
      _ = _ := by rw [hPart.dataLen, Int.toNat_natCast]
  refine .of_recorded hLen (Nat.min_le_left _ _) hShort rfl
    ⟨hWindow.of_same hSame.rwin hSame.nextPktExpected, rfl,
      rfl, hLength, rfl⟩ hPart ?_ ts
  exact hWindow.fits_new hCount hPart.first hPart.last
    (List.not_mem_nil)

end

end Reassembly

end BtPeer

------------------------------------------------------------
-- Deliveries Of New Segments
------------------------------------------------------------

namespace BtPeer

open EventMachine

/- Segment `seq` in a packet of its own. -/
def partPacket
    (len : Nat)
    (content : Nat → Byte)
    (seq : Nat) : Packet where
  magic := magicNumber
  version := versionNumber
  type := PacketType.data.code
  hdrLen := BitVec.ofNat 16 headerSize
  pktLen :=
    BitVec.ofNat 16 (headerSize + segmentLen len seq)
  seq := BitVec.ofNat 32 seq
  ack := 0
  payload := fun i => content ((seq - 1) * len + i)

theorem partPacket_carries
    {len : Nat}
    (hLen : 1 ≤ len)
    (hSize : len ≤ maxPayloadSize)
    (content : Nat → Byte)
    {seq : Nat}
    (hFirst : 1 ≤ seq)
    (hLast : seq ≤ segmentCount len) :
    CarriesPart len content (partPacket len content seq) := by
  have hCount := segmentCount_le hLen
  simp only [btChunkSize_eq] at hCount
  have hSeq :
      (partPacket len content seq).seq.toNat = seq := by
    simp only [partPacket, BitVec.toNat_ofNat]
    omega
  have hPartLen : segmentLen len seq ≤ 1484 :=
    Nat.le_trans (Nat.min_le_left _ _) hSize
  have hExt :
      (partPacket len content seq).extHeaderSize = 0 := rfl
  have hOffset :
      (partPacket len content seq).dataOffset = 0 := by
    simp only [Packet.dataOffset, Packet.maxOffset, hExt]
    omega
  refine ⟨hSeq.symm ▸ hFirst, hSeq.symm ▸ hLast, ?_, ?_⟩
  · rw [hSeq]
    simp only [Packet.getDataLen, partPacket,
      BitVec.toNat_ofNat, headerSize_eq]
    omega
  · intro i _
    rw [hSeq]
    simp only [Packet.getData, hOffset]
    simp [partPacket]

/- The deliveries of some segments, at time 1. -/
def deliveries
    (len : Nat)
    (content : Nat → Byte)
    (seqs : List Nat) : List DownloadEvent :=
  seqs.map (fun seq =>
    .deliver 1 1 (partPacket len content seq))

namespace Reassembly

/-
  New segments of a chunk that fits the window all fit, as
  long as an invariant with a window is kept.
-/
theorem run_deliveries
    {len : Nat}
    (hLen : 1 ≤ len)
    (hSize : len ≤ maxPayloadSize)
    (hCount : segmentCount len ≤ recvWindowSize)
    (content : Nat → Byte)
    (inv : Reassembly → Prop)
    (hWindow : ∀ s, inv s → s.Window (segmentCount len))
    (hStep :
      ∀ s pkt, inv s → CarriesPart len content pkt →
        seqFitIn s.dl.rwin pkt.seq = true →
        inv (s.step (.deliver 1 1 pkt)))
    {seqs : List Nat}
    (hNodup : seqs.Nodup)
    {s : Reassembly}
    (hInv : inv s)
    (hRange :
      ∀ seq, seq ∈ seqs →
        1 ≤ seq ∧ seq ≤ segmentCount len ∧ seq ∉ s.fitted) :
    let s' := run step s (deliveries len content seqs)
    inv s' ∧ s'.fitted = s.fitted ++ seqs := by
  induction seqs generalizing s with
  | nil => exact ⟨hInv, (List.append_nil s.fitted).symm⟩
  | cons seq seqs ih =>
      rcases List.nodup_cons.mp hNodup with ⟨hOther, hRest⟩
      rcases hRange seq List.mem_cons_self with
        ⟨hFirst, hLast, hNew⟩
      have hPart :=
        partPacket_carries hLen hSize content hFirst hLast
      have hSeq :
          (partPacket len content seq).seq.toNat = seq := by
        have hBound := segmentCount_le hLen
        simp only [btChunkSize_eq] at hBound
        simp only [partPacket, BitVec.toNat_ofNat]
        omega
      have hFit :=
        (hWindow s hInv).fits_new hCount hPart.first
          hPart.last (by rw [hSeq]; exact hNew)
      have hFitted :
          (s.step (.deliver 1 1
              (partPacket len content seq))).fitted =
            s.fitted ++ [seq] := by
        simp only [step, hFit, if_true, hSeq]
      rcases @ih hRest _ (hStep s _ hInv hPart hFit) (by
          intro t hMem
          rcases hRange t (List.mem_cons_of_mem seq hMem) with
            ⟨hFirstT, hLastT, hNewT⟩
          refine ⟨hFirstT, hLastT, ?_⟩
          rw [hFitted, List.mem_append, List.mem_singleton]
          rintro (hOld | rfl)
          · exact hNewT hOld
          · exact hOther hMem) with
        ⟨hAfter, hAll⟩
      refine ⟨hAfter, ?_⟩
      rw [hFitted, List.append_assoc] at hAll
      exact hAll

end Reassembly

/-
  When the last segment comes first and is so short that all
  the segments of its length do not make up the chunk, then
  all segments can fit and the download is not finished.
-/
theorem last_first_unfinished
    {len : Nat}
    (hLen : 1 ≤ len)
    (hSize : len ≤ maxPayloadSize)
    (hCount : segmentCount len ≤ recvWindowSize)
    (hShort :
      segmentCount len * segmentLen len (segmentCount len) <
        btChunkSize)
    (content : Nat → Byte) :
    let s :=
      run Reassembly.step (Reassembly.start 1 0 0 [])
        (deliveries len content
          (segmentCount len ::
            List.range' 1 (segmentCount len - 1)))
    s.AllFitted (segmentCount len) ∧
      s.dl.finished = false := by
  have hPos : 1 ≤ segmentCount len := by
    by_contra hZero
    have hNone : segmentCount len = 0 := by omega
    have hLow := (segmentCount_bounds hLen).1
    rw [hNone, Nat.zero_mul] at hLow
    exact absurd hLow (by decide)
  have hPart :=
    partPacket_carries hLen hSize content hPos (Nat.le_refl _)
  have hSeq :
      (partPacket len content
        (segmentCount len)).seq.toNat = segmentCount len := by
    have hBound := segmentCount_le hLen
    simp only [btChunkSize_eq] at hBound
    simp only [partPacket, BitVec.toNat_ofNat]
    omega
  have hFirst :=
    Reassembly.stuck_start hLen hShort hCount hPart hSeq 1 1
  have hFits :=
    (Reassembly.start_window (segmentCount_le hLen) 1 0 0
      []).fits_new hCount hPart.first hPart.last
      List.not_mem_nil
  have hFitted :
      ((Reassembly.start 1 0 0 []).step
          (.deliver 1 1
            (partPacket len content
              (segmentCount len)))).fitted =
        [segmentCount len] := by
    simp only [Reassembly.step, hFits, if_true, hSeq]
    rfl
  rcases Reassembly.run_deliveries hLen hSize hCount content
      (Reassembly.Stuck len
        (segmentLen len (segmentCount len)))
      (fun _ hStuck => hStuck.toWindow)
      (fun _ _ hStuck hPart hFit =>
        hStuck.deliver hLen (Nat.min_le_left _ _) hShort hPart
          hFit 1 1)
      (List.nodup_range' (s := 1)
        (n := segmentCount len - 1))
      hFirst
      (by
        intro seq hMem
        rw [hFitted, List.mem_singleton]
        rw [List.mem_range'_1] at hMem
        omega) with
    ⟨hStuck, hAll⟩
  refine ⟨?_, hStuck.running⟩
  intro seq hLow hHigh
  change
    seq ∈ (run Reassembly.step
      ((Reassembly.start 1 0 0 []).step _)
      (deliveries len content _)).fitted
  rw [hAll, hFitted, List.singleton_append, List.mem_cons,
    List.mem_range'_1]
  omega

end BtPeer

------------------------------------------------------------
-- Reassembly
------------------------------------------------------------

namespace BtPeer

open EventMachine

/-
  Segments of any length, in any order, with losses and
  timeouts: as long as the length is never recorded from a
  shorter last segment, the download is finished exactly when
  every segment has come at a moment when it fitted, and it
  then has the chunk.
-/
theorem reassembly_complete
    (len : Nat)
    (hLen : 1 ≤ len)
    (content : Nat → Byte)
    (now : Word)
    (pIndex getIndex : Nat)
    (filename : CString)
    (es : List DownloadEvent)
    (hSegments :
      ∀ e, e ∈ es → Reassembly.IsSegment len content e)
    (hWhole :
      Along Reassembly.step (Reassembly.RecordsWhole len)
        (Reassembly.start now pIndex getIndex filename) es) :
    let s :=
      run Reassembly.step
        (Reassembly.start now pIndex getIndex filename) es
    (s.dl.finished = true ↔
        s.AllFitted (segmentCount len)) ∧
      (s.dl.finished = true →
        ∀ i, i < btChunkSize → s.dl.buffer i = content i) := by
  intro s
  have hInv : s.Assembles len content :=
    run_invariant_along (Reassembly.Assembles len content)
      (fun _ e hInv hEvent =>
        Reassembly.step_assembles hLen e hInv hEvent)
      (Reassembly.start_assembles hLen now pIndex getIndex
        filename)
      (along_and (along_of_forall _ hSegments) hWhole)
  exact ⟨hInv.complete.trans
      hInv.toWindow.allFitted_iff.symm,
    fun hFinished _ hi => hInv.whole hLen hFinished hi⟩

/- Segments of 900 bytes, of which the first has come. -/
theorem reassembly_complete_first_part :
    let s :=
      run Reassembly.step (Reassembly.start 1 0 0 [])
        (deliveries 900 (fun _ => 7) [1])
    (s.dl.finished = true ↔
        s.AllFitted (segmentCount 900)) ∧
      (s.dl.finished = true →
        ∀ i, i < btChunkSize → s.dl.buffer i = 7) :=
  reassembly_complete 900 (by decide) (fun _ => 7) 1 0 0 []
    (deliveries 900 (fun _ => 7) [1])
    (by
      intro e hMem
      rw [List.mem_singleton.mp hMem]
      exact partPacket_carries (by decide) (by decide) _
        (by decide) (by decide))
    ⟨fun _ => by decide, trivial⟩

/-
  Segments of 900 bytes: when the last one, of 488 bytes,
  comes first, all 583 fit and the download is not finished.
-/
theorem reassembly_last_first :
    let es :=
      deliveries 900 (fun _ => 7) (583 :: List.range' 1 582)
    let s := run Reassembly.step (Reassembly.start 1 0 0 []) es
    (∀ e, e ∈ es →
        Reassembly.IsSegment 900 (fun _ => 7) e) ∧
      segmentCount 900 = 583 ∧
      s.AllFitted 583 ∧
      s.dl.finished = false := by
  have hCount : segmentCount 900 = 583 := by decide
  have hRun :=
    @last_first_unfinished 900 (by decide) (by decide)
      (by decide) (by decide) (fun _ => 7)
  simp only [hCount, Nat.reduceSub] at hRun
  refine ⟨?_, hCount, hRun⟩
  intro e hMem
  rcases List.mem_map.mp hMem with ⟨seq, hSeq, rfl⟩
  rw [List.mem_cons, List.mem_range'_1] at hSeq
  exact partPacket_carries (by decide) (by decide) _
    (by omega) (by omega)

end BtPeer
