import BtPeer.Download
import BtPeer.Transfer.Sender

/-
  What the receiving side has stored. Against the chunk that
  is being sent, every segment below the next expected one or
  marked in the window is in the buffer.

  Key definitions include:
    * `BlockStored`
    * `Download.Gathered`
    * `Download.Holds`

  Key theorems include:
    * `dlRecv_holds`
    * `dlCheckTimeout_holds`
    * `Download.Holds.complete`
-/

------------------------------------------------------------
-- The Receiver's Invariant
------------------------------------------------------------

namespace BtPeer

open RingWindow

/- Segment `seq` of `content` is in `buffer`. -/
def BlockStored
    (content buffer : Nat → Byte)
    (seq : Nat) : Prop :=
  ∀ i, i < payloadSize →
    buffer ((seq - 1) * payloadSize + i) =
      content ((seq - 1) * payloadSize + i)

/- Segment `seq` is below the window or marked in it. -/
def Received
    (dl : Download)
    (seq : Word) : Prop :=
  (1 ≤ seq ∧ seq < dl.rwin.nextSeq) ∨
    (seqFitIn dl.rwin seq = true ∧
      seqExistIn dl.rwin seq = true)

/-
  Segment `seq` was sent, up to `sentMax`, and is stored as
  one of the chunks `contents` has it.
-/
structure Known
    (contents : Set (Nat → Byte))
    (buffer : Nat → Byte)
    (sentMax seq : Nat) : Prop where
  first : 1 ≤ seq
  sent : seq ≤ sentMax
  stored :
    ∃ content ∈ contents, BlockStored content buffer seq

namespace Download

/- What the window says has arrived is stored. -/
structure Gathered
    (contents : Set (Nat → Byte))
    (sentMax : Nat)
    (dl : Download) : Prop where
  bound : sentMax ≤ lastSeq
  low : 1 ≤ dl.rwin.nextSeq.toNat
  high : dl.rwin.nextSeq.toNat ≤ lastSeq + 1
  below :
    ∀ s, 1 ≤ s → s < dl.rwin.nextSeq.toNat →
      Known contents dl.buffer sentMax s
  marked :
    dl.rwin.toRing.Sound (Known contents dl.buffer sentMax)

/- The invariant of a running download. -/
structure Holds
    (contents : Set (Nat → Byte))
    (sentMax : Nat)
    (dl : Download) : Prop
    extends Gathered contents sentMax dl where
  expected : dl.nextPktExpected = dl.rwin.nextSeq
  free :
    dl.rwin.toRing.has dl.rwin.nextSeq.toNat = false
  length : dl.started = true → dl.dataLength = payloadSize
  complete :
    dl.finished = true ↔ dl.rwin.nextSeq.toNat = lastSeq + 1

/- Only the window and the buffer matter. -/
theorem Gathered.of_same
    {contents : Set (Nat → Byte)}
    {sentMax : Nat}
    {dl dl' : Download}
    (hGathered : dl.Gathered contents sentMax)
    (hWindow : dl'.rwin = dl.rwin)
    (hBuffer : dl'.buffer = dl.buffer) :
    dl'.Gathered contents sentMax where
  bound := hGathered.bound
  low := hWindow ▸ hGathered.low
  high := hWindow ▸ hGathered.high
  below := hWindow ▸ hBuffer ▸ hGathered.below
  marked := hWindow ▸ hBuffer ▸ hGathered.marked

/- The sender may get ahead. -/
theorem Holds.mono
    {contents : Set (Nat → Byte)}
    {sentMax sentMax' : Nat}
    {dl : Download}
    (hHolds : dl.Holds contents sentMax)
    (hLe : sentMax ≤ sentMax')
    (hBound : sentMax' ≤ lastSeq) :
    dl.Holds contents sentMax' where
  bound := hBound
  low := hHolds.low
  high := hHolds.high
  below := by
    intro s hFirst hBelow
    have hKnows := hHolds.below s hFirst hBelow
    exact ⟨hKnows.first, Nat.le_trans hKnows.sent hLe,
      hKnows.stored⟩
  marked := by
    refine hHolds.marked.mono (fun s hKnows => ?_)
    exact ⟨hKnows.first, Nat.le_trans hKnows.sent hLe,
      hKnows.stored⟩
  expected := hHolds.expected
  free := hHolds.free
  length := hHolds.length
  complete := hHolds.complete

/- The cumulative acknowledgement covers sent segments only. -/
theorem Gathered.ack_le
    {contents : Set (Nat → Byte)}
    {sentMax : Nat}
    {dl : Download}
    (hGathered : dl.Gathered contents sentMax) :
    dl.rwin.nextSeq.toNat - 1 ≤ sentMax := by
  by_cases hNone : dl.rwin.nextSeq.toNat = 1
  · omega
  · have hLow := hGathered.low
    exact (hGathered.below (dl.rwin.nextSeq.toNat - 1)
      (by omega) (by omega)).sent

/- What is below the next sequence number is stored. -/
theorem Gathered.stored
    {content : Nat → Byte}
    {sentMax : Nat}
    {dl : Download}
    (hGathered : dl.Gathered {content} sentMax)
    {s : Nat}
    (hFirst : 1 ≤ s)
    (hBelow : s < dl.rwin.nextSeq.toNat) :
    BlockStored content dl.buffer s := by
  rcases (hGathered.below s hFirst hBelow).stored with
    ⟨_, rfl, hStored⟩
  exact hStored

/- A complete download holds the whole chunk. -/
theorem Holds.whole
    {content : Nat → Byte}
    {sentMax : Nat}
    {dl : Download}
    (hHolds : dl.Holds {content} sentMax)
    (hFinished : dl.finished = true)
    {i : Nat}
    (hi : i < btChunkSize) :
    dl.buffer i = content i := by
  have hNext := hHolds.complete.mp hFinished
  have hBlock : i / payloadSize + 1 < lastSeq + 1 :=
    Nat.succ_lt_succ (Nat.div_lt_of_lt_mul hi)
  have hStored :=
    hHolds.stored (Nat.le_add_left 1 _) (hNext ▸ hBlock)
      (i % payloadSize) (Nat.mod_lt i (by decide))
  have hSplit :
      (i / payloadSize + 1 - 1) * payloadSize +
        i % payloadSize = i := by
    rw [Nat.add_sub_cancel, Nat.mul_comm]
    exact Nat.div_add_mod i payloadSize
  rwa [hSplit] at hStored

end Download

theorem dlInit_holds
    (contents : Set (Nat → Byte))
    (now : Word)
    (pIndex getIndex : Nat)
    (filename : CString) :
    (dlInit now pIndex getIndex filename).Holds contents 0 where
  bound := Nat.zero_le _
  low := Nat.le_refl 1
  high := Nat.le_add_left 1 lastSeq
  below := by
    intro s hFirst hBelow
    have hLt : s < 1 := hBelow
    omega
  marked := by
    intro s _ _ hHas
    simp only [dlInit, toRing_init_has] at hHas
    simp at hHas
  expected := rfl
  free := toRing_init_has _
  length := by simp [dlInit, Download.zero]
  complete := by
    simp [dlInit, Download.zero, initRecvwin]

end BtPeer

------------------------------------------------------------
-- Sliding The Window
------------------------------------------------------------

namespace BtPeer

open RingWindow

/- The next sequence number stays far from wrapping. -/
theorem Download.Gathered.room
    {contents : Set (Nat → Byte)}
    {sentMax : Nat}
    {dl : Download}
    (hGathered : dl.Gathered contents sentMax) :
    dl.rwin.nextSeq.toNat + 1024 < 4294967296 := by
  have hHigh := hGathered.high
  simp only [lastSeq_eq] at hHigh
  omega

/- Every received segment is stored. -/
theorem Download.Gathered.received
    {contents : Set (Nat → Byte)}
    {sentMax : Nat}
    {dl : Download}
    (hGathered : dl.Gathered contents sentMax)
    {seq : Word}
    (hReceived : Received dl seq) :
    ∃ content ∈ contents,
      BlockStored content dl.buffer seq.toNat := by
  rcases hReceived with ⟨hFirst, hBelow⟩ | ⟨hFit, hExist⟩
  · exact (hGathered.below seq.toNat hFirst hBelow).stored
  · rw [seqFitIn_iff _ _ hGathered.room] at hFit
    rw [seqExistIn_eq_has] at hExist
    exact (hGathered.marked _ hFit.1 hFit.2 hExist).stored

/-
  Sliding passes known segments only, and stops in front of a
  free slot.
-/
theorem slideAck_gathered
    {contents : Set (Nat → Byte)}
    {sentMax : Nat}
    {dl : Download}
    (hGathered : dl.Gathered contents sentMax) :
    (slideAck dl).Gathered contents sentMax ∧
      (slideAck dl).rwin.toRing.has
          (slideAck dl).rwin.nextSeq.toNat = false ∧
      dl.rwin.nextSeq.toNat ≤
        (slideAck dl).rwin.nextSeq.toNat := by
  have hSlide := toRing_slideack dl.rwin hGathered.room
  have hNext :
      (recvwinSlideack dl.rwin).nextSeq.toNat =
        dl.rwin.toRing.slide.next := by
    rw [← toRing_next, hSlide]
  have hPassed :
      ∀ s, dl.rwin.nextSeq.toNat ≤ s →
        s < (recvwinSlideack dl.rwin).nextSeq.toNat →
        Known contents dl.buffer sentMax s := by
    intro s hLow hHigh
    exact SlotRing.passed_slide hGathered.marked hLow
      (hNext ▸ hHigh)
  have hLe :
      dl.rwin.nextSeq.toNat ≤
        (recvwinSlideack dl.rwin).nextSeq.toNat := by
    rw [hNext]
    exact SlotRing.slide_next_le dl.rwin.toRing
  have hLow := hGathered.low
  have hHighOld := hGathered.high
  have hBound := hGathered.bound
  have hHigh :
      (recvwinSlideack dl.rwin).nextSeq.toNat ≤
        lastSeq + 1 := by
    by_contra hPast
    have hKnows :=
      hPassed (lastSeq + 1) hHighOld (by omega)
    have hSent := hKnows.sent
    omega
  refine ⟨⟨hBound, ?_, hHigh, ?_, ?_⟩, ?_, hLe⟩
  · exact Nat.le_trans hLow hLe
  · intro s hFirst hBelow
    by_cases hOld : s < dl.rwin.nextSeq.toNat
    · exact hGathered.below s hFirst hOld
    · exact hPassed s (by omega) hBelow
  · change (recvwinSlideack dl.rwin).toRing.Sound _
    rw [hSlide]
    exact SlotRing.sound_slide hGathered.marked
  · change
      (recvwinSlideack dl.rwin).toRing.has
        (recvwinSlideack dl.rwin).nextSeq.toNat = false
    rw [hNext, hSlide]
    rcases SlotRing.slide_stops dl.rwin.toRing with hAll | hFree
    · rw [hNext, hAll, toRing_next] at hHigh
      simp only [lastSeq_eq] at hHigh
      omega
    · exact hFree

/- A window with a free first slot stays where it is. -/
theorem slideAck_holds
    {contents : Set (Nat → Byte)}
    {sentMax : Nat}
    {dl : Download}
    (hHolds : dl.Holds contents sentMax) :
    (slideAck dl).Holds contents sentMax ∧
      (slideAck dl).rwin.nextSeq = dl.rwin.nextSeq := by
  rcases slideAck_gathered hHolds.toGathered with
    ⟨hGathered, hFree, _⟩
  have hSlide := toRing_slideack dl.rwin hHolds.room
  rw [SlotRing.slide_eq_self hHolds.free] at hSlide
  have hNext :
      (slideAck dl).rwin.nextSeq = dl.rwin.nextSeq := by
    apply BitVec.eq_of_toNat_eq
    exact congrArg SlotRing.next hSlide
  refine ⟨⟨hGathered, rfl, hFree, hHolds.length, ?_⟩, hNext⟩
  rw [hNext]
  exact hHolds.complete

end BtPeer

------------------------------------------------------------
-- Storing A Segment
------------------------------------------------------------

namespace BtPeer

open RingWindow

/- The packet is new to a running download. -/
def Accepts
    (dl : Download)
    (pkt : Packet) : Prop :=
  dl.finished = false ∧ seqFitIn dl.rwin pkt.seq = true ∧
    seqExistIn dl.rwin pkt.seq = false

/- What recording the length leaves alone. -/
structure SameWindow (dl dl' : Download) : Prop where
  pIndex : dl'.pIndex = dl.pIndex
  rwin : dl'.rwin = dl.rwin
  buffer : dl'.buffer = dl.buffer
  nextPktExpected : dl'.nextPktExpected = dl.nextPktExpected
  finished : dl'.finished = dl.finished

theorem recordLength_same
    (now : Word)
    (dl : Download)
    (pkt : Packet) :
    SameWindow dl (recordLength now dl pkt) := by
  unfold recordLength
  split <;> exact ⟨rfl, rfl, rfl, rfl, rfl⟩

/- Every segment has the same length. -/
theorem recordLength_dataLength
    {dl : Download}
    (hLength :
      dl.started = true → dl.dataLength = payloadSize)
    {pkt : Packet}
    (hLen : pkt.getDataLen = payloadSize)
    (now : Word) :
    (recordLength now dl pkt).dataLength = payloadSize := by
  unfold recordLength
  split
  · rename_i hStarted
    rw [Bool.and_eq_true] at hStarted
    exact hLength hStarted.1
  · simp only [hLen, Int.toNat_natCast]

/- Copying one segment keeps the other segments. -/
theorem blockStored_memcpy
    {content buffer src : Nat → Byte}
    {seq t : Nat}
    (hFirst : 1 ≤ seq)
    (hStored : BlockStored content buffer t)
    (hFirstT : 1 ≤ t)
    (hNe : t ≠ seq) :
    BlockStored content
      (ByteMemory.memcpy buffer ((seq - 1) * payloadSize) src
        payloadSize) t := by
  intro i hi
  rw [ByteMemory.memcpy_outside]
  · exact hStored i hi
  · have hSlots :=
      ByteMemory.slots_disjoint payloadSize
        (a := t - 1) (b := seq - 1) (by omega)
    omega

theorem storeSegment_gathered
    {contents : Set (Nat → Byte)}
    {sentMax : Nat}
    {dl : Download}
    (hGathered : dl.Gathered contents sentMax)
    (hLength : dl.dataLength = payloadSize)
    {pkt : Packet}
    (hFit : seqFitIn dl.rwin pkt.seq = true)
    (hNew :
      seqExistIn dl.rwin pkt.seq = false →
        ∃ content ∈ contents,
          CarriesSegment content pkt ∧
            pkt.seq.toNat ≤ sentMax) :
    (storeSegment dl pkt).Gathered contents sentMax := by
  unfold storeSegment
  split
  · exact hGathered
  · rename_i hExist
    rcases hNew (Bool.eq_false_iff.mpr hExist) with
      ⟨content, hMem, hSegment, hSent⟩
    rcases (seqFitIn_iff dl.rwin pkt.seq hGathered.room).mp
        hFit with
      ⟨hLow, hHigh⟩
    have hFirst := hSegment.first
    have hPred : (pkt.seq - 1).toNat = pkt.seq.toNat - 1 := by
      bv_omega
    have hOffset :
        segmentOffset dl pkt.seq =
          (pkt.seq.toNat - 1) * payloadSize := by
      rw [segmentOffset, hLength, hPred]
    have hLen : pkt.getDataLen.toNat = payloadSize := by
      rw [hSegment.dataLen, Int.toNat_natCast]
    rw [hOffset, hLen]
    have hThis :
        Known contents
          (ByteMemory.memcpy dl.buffer
            ((pkt.seq.toNat - 1) * payloadSize) pkt.getData
            payloadSize) sentMax pkt.seq.toNat := by
      refine ⟨hFirst, hSent, content, hMem, ?_⟩
      intro i hi
      rw [ByteMemory.memcpy_inside _ _ hi]
      exact hSegment.bytes i hi
    have hOther :
        ∀ t, Known contents dl.buffer sentMax t →
          Known contents
            (ByteMemory.memcpy dl.buffer
              ((pkt.seq.toNat - 1) * payloadSize) pkt.getData
              payloadSize) sentMax t := by
      intro t hKnown
      by_cases hEq : t = pkt.seq.toNat
      · rw [hEq]
        exact hThis
      · rcases hKnown.stored with ⟨other, hOther, hStored⟩
        exact ⟨hKnown.first, hKnown.sent, other, hOther,
          blockStored_memcpy hFirst hStored hKnown.first hEq⟩
    refine ⟨hGathered.bound, hGathered.low, hGathered.high,
      ?_, ?_⟩
    · intro t hFirstT hBelow
      exact hOther t (hGathered.below t hFirstT hBelow)
    · change (recvwinMark dl.rwin pkt.seq).toRing.Sound _
      rw [toRing_mark]
      exact SlotRing.sound_mark (hGathered.marked.mono hOther)
        hLow hHigh hThis

end BtPeer

------------------------------------------------------------
-- Receiving
------------------------------------------------------------

namespace BtPeer

@[simp] theorem slideAck_finished
    (dl : Download) :
    (slideAck dl).finished = dl.finished := rfl

@[simp] theorem slideAck_dataLength
    (dl : Download) :
    (slideAck dl).dataLength = dl.dataLength := rfl

@[simp] theorem storeSegment_finished
    (dl : Download)
    (pkt : Packet) :
    (storeSegment dl pkt).finished = dl.finished := by
  unfold storeSegment
  split <;> rfl

@[simp] theorem storeSegment_dataLength
    (dl : Download)
    (pkt : Packet) :
    (storeSegment dl pkt).dataLength = dl.dataLength := by
  unfold storeSegment
  split <;> rfl

@[simp] theorem storeSegment_nextSeq
    (dl : Download)
    (pkt : Packet) :
    (storeSegment dl pkt).rwin.nextSeq = dl.rwin.nextSeq := by
  unfold storeSegment
  split <;> rfl

@[simp] theorem markFinished_rwin
    (dl : Download) :
    (markFinished dl).rwin = dl.rwin := by
  unfold markFinished
  split <;> rfl

@[simp] theorem markFinished_pIndex
    (dl : Download) :
    (markFinished dl).pIndex = dl.pIndex := by
  unfold markFinished
  split <;> rfl

/- The packets acknowledge what is below `next_seq`. -/
def AcksOf
    (dl : Download)
    (sent : List PktParam) : Prop :=
  ∀ pp ∈ sent,
    pp = ackParam dl.pIndex (dl.rwin.nextSeq - 1)

/- What is put on the network are the acknowledgements. -/
theorem emit_acks
    (stack : Nat → Byte)
    {dl : Download}
    {sent : List PktParam}
    (hAcks : AcksOf dl sent)
    {pkt : Packet}
    (hMem : pkt ∈ emit stack sent) :
    CarriesAck (dl.rwin.nextSeq - 1) pkt := by
  rcases List.mem_flatMap.mp hMem with ⟨pp, hPP, hBuilt⟩
  rw [hAcks pp hPP, buildPackets_ack] at hBuilt
  rw [List.mem_singleton.mp hBuilt]
  exact ackPacket_carries stack _

theorem acksOf_nil
    (dl : Download) :
    AcksOf dl [] :=
  fun _ hMem => by simp at hMem

/- The completion test is true behind the last segment. -/
theorem markFinished_holds
    {contents : Set (Nat → Byte)}
    {sentMax : Nat}
    {dl : Download}
    (hGathered : dl.Gathered contents sentMax)
    (hExpected : dl.nextPktExpected = dl.rwin.nextSeq)
    (hFree :
      dl.rwin.toRing.has dl.rwin.nextSeq.toNat = false)
    (hLength : dl.dataLength = payloadSize)
    (hRunning : dl.finished = false) :
    (markFinished dl).Holds contents sentMax := by
  have hLow := hGathered.low
  have hHigh := hGathered.high
  have hPred :
      (dl.nextPktExpected - 1).toNat =
        dl.rwin.nextSeq.toNat - 1 := by
    rw [hExpected]
    bv_omega
  have hTest :
      btChunkSize ≤
          (dl.nextPktExpected - 1).toNat * dl.dataLength ↔
        dl.rwin.nextSeq.toNat = lastSeq + 1 := by
    rw [hPred, hLength]
    simp only [btChunkSize_eq, payloadSize_eq, lastSeq_eq]
      at hHigh ⊢
    omega
  unfold markFinished
  split
  · rename_i hDone
    exact ⟨hGathered.of_same rfl rfl, hExpected, hFree,
      fun _ => hLength, iff_of_true rfl (hTest.mp hDone)⟩
  · rename_i hDone
    exact ⟨hGathered, hExpected, hFree, fun _ => hLength,
      iff_of_false (by simp [hRunning])
        (mt hTest.mpr hDone)⟩

/- Storing a segment and answering it keeps the invariant. -/
theorem answer_holds
    {contents : Set (Nat → Byte)}
    {sentMax : Nat}
    {dl : Download}
    (hGathered : dl.Gathered contents sentMax)
    (hLength : dl.dataLength = payloadSize)
    (hRunning : dl.finished = false)
    {pkt : Packet}
    (hFit : seqFitIn dl.rwin pkt.seq = true)
    (hNew :
      seqExistIn dl.rwin pkt.seq = false →
        ∃ content ∈ contents,
          CarriesSegment content pkt ∧
            pkt.seq.toNat ≤ sentMax)
    (ts : Word) :
    let slid := slideAck (storeSegment dl pkt)
    let out :=
      markFinished { slid with ts := ts, timeoutCnt := 0 }
    out.Holds contents sentMax ∧
      dl.rwin.nextSeq.toNat ≤ out.rwin.nextSeq.toNat ∧
      AcksOf out
        [ackParam slid.pIndex (slid.nextPktExpected - 1)] := by
  intro slid out
  have hStored :=
    storeSegment_gathered hGathered hLength hFit hNew
  rcases slideAck_gathered hStored with ⟨hSlid, hFree, hLe⟩
  rw [storeSegment_nextSeq] at hLe
  have hSlidRunning : slid.finished = false := by
    simp only [slid, slideAck_finished, storeSegment_finished]
    exact hRunning
  have hSlidLength : slid.dataLength = payloadSize := by
    simp only [slid, slideAck_dataLength,
      storeSegment_dataLength]
    exact hLength
  have hExpected : slid.nextPktExpected = slid.rwin.nextSeq :=
    rfl
  refine ⟨markFinished_holds (hSlid.of_same rfl rfl)
    hExpected hFree hSlidLength hSlidRunning, ?_, ?_⟩
  · rw [markFinished_rwin]
    exact hLe
  · intro pp hMem
    rw [List.mem_singleton.mp hMem, markFinished_pIndex,
      markFinished_rwin, hExpected]

/-
  Receiving a segment that is already there, or that carries
  its part of the chunk, keeps the invariant.
-/
theorem dlRecv_holds
    {contents : Set (Nat → Byte)}
    {sentMax : Nat}
    {dl : Download}
    (hHolds : dl.Holds contents sentMax)
    {pkt : Packet}
    (hLen : pkt.getDataLen = payloadSize)
    (hNew :
      Accepts dl pkt →
        ∃ content ∈ contents,
          CarriesSegment content pkt ∧
            pkt.seq.toNat ≤ sentMax)
    (now ts : Word) :
    let out := dlRecv now ts dl pkt
    out.1.Holds contents sentMax ∧
      dl.rwin.nextSeq.toNat ≤ out.1.rwin.nextSeq.toNat ∧
      AcksOf out.1 out.2.1 := by
  have hNothing :
      ∀ dl' : Download, dl'.Holds contents sentMax →
        dl'.rwin = dl.rwin →
        dl'.Holds contents sentMax ∧
          dl.rwin.nextSeq.toNat ≤ dl'.rwin.nextSeq.toNat ∧
          AcksOf dl' [] := by
    intro dl' hHolds' hWindow
    exact ⟨hHolds', by rw [hWindow], acksOf_nil dl'⟩
  unfold dlRecv
  split
  · exact hNothing dl hHolds rfl
  · rename_i hRunning
    rw [Bool.not_eq_true] at hRunning
    have hLength :=
      recordLength_dataLength hHolds.length hLen now
    have hSame := recordLength_same now dl pkt
    have hRecorded :=
      hHolds.toGathered.of_same hSame.rwin hSame.buffer
    generalize recordLength now dl pkt = dl₁
      at hRecorded hLength hSame
    dsimp only
    split
    · refine hNothing dl₁
        ⟨hRecorded, ?_, ?_, fun _ => hLength, ?_⟩ hSame.rwin
      · rw [hSame.nextPktExpected, hSame.rwin]
        exact hHolds.expected
      · rw [hSame.rwin]
        exact hHolds.free
      · rw [hSame.finished, hSame.rwin]
        exact hHolds.complete
    · rename_i hAdmit
      simp only [Bool.or_eq_true, Bool.not_eq_true',
        decide_eq_true_eq, not_or, Bool.not_eq_false]
        at hAdmit
      rw [← hSame.rwin]
      refine answer_holds hRecorded hLength
        (hSame.finished.trans hRunning) hAdmit.1 ?_ ts
      intro hExist
      exact hNew ⟨hRunning, hSame.rwin ▸ hAdmit.1,
        hSame.rwin ▸ hExist⟩

end BtPeer

------------------------------------------------------------
-- Timeouts
------------------------------------------------------------

namespace BtPeer

theorem lossAcks_holds
    {contents : Set (Nat → Byte)}
    {sentMax : Nat}
    (k : Nat)
    {dl : Download}
    (hHolds : dl.Holds contents sentMax) :
    (lossAcks k dl).1.Holds contents sentMax ∧
      (lossAcks k dl).1.rwin.nextSeq = dl.rwin.nextSeq ∧
      (lossAcks k dl).1.pIndex = dl.pIndex ∧
      AcksOf dl (lossAcks k dl).2 := by
  induction k generalizing dl with
  | zero => exact ⟨hHolds, rfl, rfl, acksOf_nil dl⟩
  | succ k ih =>
      rcases slideAck_holds hHolds with ⟨hSlid, hNext⟩
      rcases ih hSlid with ⟨hRest, hSame, hIndex, hAcks⟩
      simp only [lossAcks, getAck]
      refine ⟨hRest, hSame.trans hNext, hIndex, ?_⟩
      intro pp hMem
      rcases List.mem_cons.mp hMem with rfl | hLater
      · rw [hSlid.expected, hNext]
        rfl
      · rw [hAcks pp hLater, hNext]
        rfl

/- A timeout repeats the acknowledgement, nothing else. -/
theorem dlCheckTimeout_holds
    {contents : Set (Nat → Byte)}
    {sentMax : Nat}
    {dl : Download}
    (hHolds : dl.Holds contents sentMax)
    (now ts : Word) :
    let out := dlCheckTimeout now ts dl
    out.1.Holds contents sentMax ∧
      dl.rwin.nextSeq.toNat ≤ out.1.rwin.nextSeq.toNat ∧
      AcksOf out.1 out.2.1 := by
  have hNothing :
      dl.Holds contents sentMax ∧
        dl.rwin.nextSeq.toNat ≤ dl.rwin.nextSeq.toNat ∧
        AcksOf dl [] :=
    ⟨hHolds, Nat.le_refl _, acksOf_nil dl⟩
  unfold dlCheckTimeout
  split
  · exact hNothing
  · split
    · exact hNothing
    · split
      · exact hNothing
      · have hCounted :
            ({ dl with timeoutCnt := dl.timeoutCnt + 1 } :
              Download).Holds contents sentMax :=
          ⟨hHolds.toGathered.of_same rfl rfl, hHolds.expected,
            hHolds.free, hHolds.length, hHolds.complete⟩
        rcases lossAcks_holds lossAckNum hCounted with
          ⟨hLoss, hNext, hIndex, hAcks⟩
        simp only [dlLoss]
        refine ⟨⟨hLoss.toGathered.of_same rfl rfl,
          hLoss.expected, hLoss.free, hLoss.length,
          hLoss.complete⟩, by rw [hNext], ?_⟩
        intro pp hMem
        rw [hAcks pp hMem, hIndex, hNext]

end BtPeer
