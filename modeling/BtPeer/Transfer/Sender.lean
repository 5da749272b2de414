import BtPeer.Upload

/-
  What the sending side does to its counters, and the
  packets it puts on the network.

  Key definitions include:
    * `Upload.Bounded`
    * `emit`
    * `CarriesSegment`

  Key theorems include:
    * `ulSend_segments`
    * `ulHandleAck_effect`
    * `emit_segment`
-/

------------------------------------------------------------
-- Counters
------------------------------------------------------------

namespace BtPeer

namespace Upload

/- The counters stay within the segments of a chunk. -/
structure Bounded (ul : Upload) : Prop where
  sent : ul.lastPktSent.toNat ≤ lastSeq
  max : ul.maxPktSent.toNat ≤ lastSeq
  acked : ul.lastPktAcked.toNat ≤ ul.maxPktSent.toNat
  finished :
    ul.finished = true → lastSeq ≤ ul.lastPktAcked.toNat

/- Nothing but the estimates and the window changes. -/
structure SameCounters (ul ul' : Upload) : Prop where
  hasIndex : ul'.hasIndex = ul.hasIndex
  pIndex : ul'.pIndex = ul.pIndex
  lastPktAcked : ul'.lastPktAcked = ul.lastPktAcked
  lastPktSent : ul'.lastPktSent = ul.lastPktSent
  maxPktSent : ul'.maxPktSent = ul.maxPktSent
  data : ul'.data = ul.data
  finished : ul'.finished = ul.finished

theorem SameCounters.refl
    (ul : Upload) :
    SameCounters ul ul :=
  ⟨rfl, rfl, rfl, rfl, rfl, rfl, rfl⟩

theorem SameCounters.trans
    {ul ul' ul'' : Upload}
    (h : SameCounters ul ul')
    (h' : SameCounters ul' ul'') :
    SameCounters ul ul'' where
  hasIndex := h'.hasIndex.trans h.hasIndex
  pIndex := h'.pIndex.trans h.pIndex
  lastPktAcked := h'.lastPktAcked.trans h.lastPktAcked
  lastPktSent := h'.lastPktSent.trans h.lastPktSent
  maxPktSent := h'.maxPktSent.trans h.maxPktSent
  data := h'.data.trans h.data
  finished := h'.finished.trans h.finished

theorem Bounded.of_sameCounters
    {ul ul' : Upload}
    (hBounded : ul.Bounded)
    (hSame : SameCounters ul ul') :
    ul'.Bounded where
  sent := hSame.lastPktSent ▸ hBounded.sent
  max := hSame.maxPktSent ▸ hBounded.max
  acked :=
    hSame.lastPktAcked ▸ hSame.maxPktSent ▸ hBounded.acked
  finished :=
    hSame.finished ▸ hSame.lastPktAcked ▸ hBounded.finished

end Upload

theorem sampleRtt_sameCounters
    (now : Word)
    (ul : Upload)
    (ack : Word) :
    ul.SameCounters (sampleRtt now ul ack) := by
  unfold sampleRtt
  split <;> exact ⟨rfl, rfl, rfl, rfl, rfl, rfl, rfl⟩

theorem allowDup_sameCounters
    (ul : Upload)
    (ack : Word) :
    ul.SameCounters (allowDup ul ack) := by
  unfold allowDup
  split <;> exact ⟨rfl, rfl, rfl, rfl, rfl, rfl, rfl⟩

theorem ackStatus_sameCounters
    (ul : Upload)
    (ack : Word) :
    ul.SameCounters (ackStatus ul ack) := by
  unfold ackStatus
  split
  case h_3 => split <;> exact ⟨rfl, rfl, rfl, rfl, rfl, rfl, rfl⟩
  case h_5 => split <;> exact ⟨rfl, rfl, rfl, rfl, rfl, rfl, rfl⟩
  all_goals exact ⟨rfl, rfl, rfl, rfl, rfl, rfl, rfl⟩

theorem setAckCnt_sameCounters
    (ul : Upload)
    (ackCnt : Nat → Int) :
    ul.SameCounters { ul with ackCnt := ackCnt } :=
  ⟨rfl, rfl, rfl, rfl, rfl, rfl, rfl⟩

theorem growCa_sameCounters
    (now : Word)
    (ul : Upload) :
    ul.SameCounters (growCa now ul) := by
  unfold growCa
  split
  case h_3 => exact Upload.SameCounters.refl ul
  all_goals
    dsimp only
    generalize
      (if ul.caTs = 0 then now + ul.rtt else ul.caTs) = caTs
    split <;> exact ⟨rfl, rfl, rfl, rfl, rfl, rfl, rfl⟩

theorem ulInit_bounded
    (pIndex hasIndex : Nat)
    (mapped : Option (Nat → Byte)) :
    (ulInit pIndex hasIndex mapped).1.Bounded where
  sent := Nat.zero_le _
  max := Nat.zero_le _
  acked := Nat.le_refl _
  finished := fun h => by simp [ulInit, Upload.zero] at h

end BtPeer

------------------------------------------------------------
-- The Effect Of Sending
------------------------------------------------------------

namespace BtPeer

/-
  The clock can be read for every segment that `ul` has not
  sent before.
-/
def Upload.ClockReads
    (ts : Word → Word)
    (ul : Upload) : Prop :=
  ∀ seq : Word, ul.maxPktSent < seq → ts seq ≠ 0

theorem Upload.clockReads_one
    (ul : Upload) :
    ul.ClockReads (fun _ => 1) :=
  fun _ _ => by simp

namespace Upload

/-
  Sending `sent` moves the counters forward. The packets are
  segments of the chunk, and counted in `max_pkt_sent` when
  the clock could be read.
-/
structure SendEffect
    (ts : Word → Word)
    (ul ul' : Upload)
    (sent : List PktParam) : Prop where
  hasIndex : ul'.hasIndex = ul.hasIndex
  pIndex : ul'.pIndex = ul.pIndex
  lastPktAcked : ul'.lastPktAcked = ul.lastPktAcked
  data : ul'.data = ul.data
  finished : ul'.finished = ul.finished
  maxPktSent : ul.maxPktSent.toNat ≤ ul'.maxPktSent.toNat
  bounded : ul'.Bounded
  segments :
    ∀ pp ∈ sent,
      ∃ seq : Word,
        pp = ul.segment seq ∧ 0 < seq.toNat ∧
          seq.toNat ≤ lastSeq ∧
          (ul.ClockReads ts →
            seq.toNat ≤ ul'.maxPktSent.toNat)

theorem SendEffect.nothing
    (ts : Word → Word)
    {ul : Upload}
    (hBounded : ul.Bounded) :
    SendEffect ts ul ul [] where
  hasIndex := rfl
  pIndex := rfl
  lastPktAcked := rfl
  data := rfl
  finished := rfl
  maxPktSent := Nat.le_refl _
  bounded := hBounded
  segments := fun pp hMem => by simp at hMem

/- A change of the estimates before sending. -/
theorem SendEffect.after
    {ts : Word → Word}
    {ul ul' ul'' : Upload}
    {sent : List PktParam}
    (hEffect : SendEffect ts ul' ul'' sent)
    (hHasIndex : ul'.hasIndex = ul.hasIndex)
    (hPIndex : ul'.pIndex = ul.pIndex)
    (hAcked : ul'.lastPktAcked = ul.lastPktAcked)
    (hMax : ul'.maxPktSent = ul.maxPktSent)
    (hData : ul'.data = ul.data)
    (hFinished : ul'.finished = ul.finished) :
    SendEffect ts ul ul'' sent where
  hasIndex := hEffect.hasIndex.trans hHasIndex
  pIndex := hEffect.pIndex.trans hPIndex
  lastPktAcked := hEffect.lastPktAcked.trans hAcked
  data := hEffect.data.trans hData
  finished := hEffect.finished.trans hFinished
  maxPktSent := hMax ▸ hEffect.maxPktSent
  bounded := hEffect.bounded
  segments := by
    have hSegments := hEffect.segments
    simpa only [segment, ClockReads, hPIndex, hData, hMax]
      using hSegments

end Upload

theorem ulSend_effect
    (ts : Word → Word)
    {ul : Upload}
    (hBounded : ul.Bounded) :
    ul.SendEffect ts (ulSend ts ul).1 (ulSend ts ul).2.1 := by
  rcases ulSendLoop_spec ts sendFuel ul hBounded.sent with
    ⟨hMax, _, hHigh, hAll⟩
  have hFailed := ulSendLoop_failed ts sendFuel ul
  have hSame := ulSend_same ts ul
  have hAcked := hBounded.acked
  have hMaxOld := hBounded.max
  have hFinished := hBounded.finished
  unfold ulSend at hSame ⊢
  split at hSame
  · rename_i ul' sent hLoop
    rw [hLoop] at hMax hHigh hAll hFailed
    simp only at hSame hMax hHigh hAll
    refine ⟨hSame.hasIndex, hSame.pIndex, hSame.lastPktAcked,
      hSame.data, hSame.finished, by rw [hMax],
      ⟨hHigh, ?_, ?_, ?_⟩, ?_⟩
    · rw [hMax]
      exact hMaxOld
    · rw [hMax, hSame.lastPktAcked]
      exact hAcked
    · rw [hSame.finished, hSame.lastPktAcked]
      exact hFinished
    · intro pp hMem
      rcases hAll pp hMem with
        ⟨seq, hSeg, hGt, hLe, hCounted⟩
      refine ⟨seq, hSeg, by omega, hLe, ?_⟩
      intro hClock
      -- the segment the clock failed at was sent before
      have hOld :
          (ul'.lastPktSent + 1).toNat ≤
            ul.maxPktSent.toNat := by
        by_contra hAbove
        refine hClock (ul'.lastPktSent + 1) ?_ (hFailed rfl)
        rw [BitVec.lt_def]
        omega
      have hSucc := toNat_succ_of_le hHigh
      rw [hMax]
      omega
  · rename_i ul' sent hLoop
    rw [hLoop] at hMax hHigh hAll
    simp only at hSame hMax hHigh hAll
    refine ⟨hSame.hasIndex, hSame.pIndex, hSame.lastPktAcked,
      hSame.data, hSame.finished, ?_,
      ⟨hHigh, ?_, ?_, ?_⟩, ?_⟩
    · rw [toNat_wordMax, hMax]
      exact Nat.le_max_left _ _
    · rw [toNat_wordMax, hMax]
      exact Nat.max_le.mpr ⟨hMaxOld, hHigh⟩
    · rw [toNat_wordMax, hMax, hSame.lastPktAcked]
      exact Nat.le_trans hAcked (Nat.le_max_left _ _)
    · rw [hSame.finished, hSame.lastPktAcked]
      exact hFinished
    · intro pp hMem
      rcases hAll pp hMem with
        ⟨seq, hSeg, hGt, hLe, hCounted⟩
      refine ⟨seq, hSeg, by omega, hLe, ?_⟩
      intro _
      rw [toNat_wordMax]
      rcases hCounted with hBelow | ⟨hFail, _⟩
      · exact Nat.le_trans hBelow (Nat.le_max_right _ _)
      · simp at hFail

theorem ulLoss_bounded
    {ul : Upload}
    (hBounded : ul.Bounded) :
    (ulLoss ul).Bounded where
  sent := Nat.le_trans hBounded.acked hBounded.max
  max := hBounded.max
  acked := hBounded.acked
  finished := hBounded.finished

theorem ulCheckTimeout_effect
    (now : Word)
    (ts : Word → Word)
    {ul : Upload}
    (hBounded : ul.Bounded) :
    ul.SendEffect ts (ulCheckTimeout now ts ul).1
      (ulCheckTimeout now ts ul).2.1 := by
  have hGrow := growCa_sameCounters now ul
  have hGrowBounded := hBounded.of_sameCounters hGrow
  unfold ulCheckTimeout
  split
  · exact .nothing ts hBounded
  · dsimp only
    split
    · refine (ulSend_effect ts (ulLoss_bounded ?_)).after
        hGrow.hasIndex hGrow.pIndex hGrow.lastPktAcked
        hGrow.maxPktSent hGrow.data hGrow.finished
      exact ⟨hGrowBounded.sent, hGrowBounded.max,
        hGrowBounded.acked, hGrowBounded.finished⟩
    · exact (Upload.SendEffect.nothing ts hGrowBounded).after
        hGrow.hasIndex hGrow.pIndex hGrow.lastPktAcked
        hGrow.maxPktSent hGrow.data hGrow.finished

end BtPeer

------------------------------------------------------------
-- The Effect Of Acknowledgements
------------------------------------------------------------

namespace BtPeer

namespace Upload

/- What handling `ack` can do to the counters. -/
structure AckEffect
    (ack : Word)
    (ul ul' : Upload) : Prop where
  hasIndex : ul'.hasIndex = ul.hasIndex
  pIndex : ul'.pIndex = ul.pIndex
  maxPktSent : ul'.maxPktSent = ul.maxPktSent
  data : ul'.data = ul.data
  sent :
    ul'.lastPktSent = ul.lastPktSent ∨
      ul'.lastPktSent = ul.lastPktAcked ∨
        (ul'.lastPktSent = ack ∧ ack ≤ ul.maxPktSent)
  acked :
    (ul'.lastPktAcked = ul.lastPktAcked ∧
        ul'.finished = ul.finished) ∨
      (ul'.lastPktAcked = ack ∧ ack ≤ ul.maxPktSent ∧
        ul'.finished =
          (ul.finished || decide (lastSeq ≤ ack.toNat)) ∧
        ul.lastPktAcked < ack)

theorem AckEffect.of_sameCounters
    {ack : Word}
    {ul ul' : Upload}
    (hSame : SameCounters ul ul') :
    AckEffect ack ul ul' where
  hasIndex := hSame.hasIndex
  pIndex := hSame.pIndex
  maxPktSent := hSame.maxPktSent
  data := hSame.data
  sent := Or.inl hSame.lastPktSent
  acked := Or.inl ⟨hSame.lastPktAcked, hSame.finished⟩

theorem AckEffect.after_sameCounters
    {ack : Word}
    {ul ul' ul'' : Upload}
    (hSame : SameCounters ul ul')
    (hEffect : AckEffect ack ul' ul'') :
    AckEffect ack ul ul'' where
  hasIndex := hEffect.hasIndex.trans hSame.hasIndex
  pIndex := hEffect.pIndex.trans hSame.pIndex
  maxPktSent := hEffect.maxPktSent.trans hSame.maxPktSent
  data := hEffect.data.trans hSame.data
  sent := by
    simpa only [hSame.lastPktSent, hSame.lastPktAcked,
      hSame.maxPktSent] using hEffect.sent
  acked := by
    simpa only [hSame.finished, hSame.lastPktAcked,
      hSame.maxPktSent] using hEffect.acked

theorem AckEffect.bounded
    {ack : Word}
    {ul ul' : Upload}
    (hEffect : AckEffect ack ul ul')
    (hBounded : ul.Bounded) :
    ul'.Bounded := by
  have hSent := hBounded.sent
  have hMax := hBounded.max
  have hAcked := hBounded.acked
  refine ⟨?_, ?_, ?_, ?_⟩
  · rcases hEffect.sent with h | h | ⟨h, hLe⟩
    · exact h ▸ hSent
    · exact h ▸ Nat.le_trans hAcked hMax
    · exact h ▸ Nat.le_trans hLe hMax
  · exact hEffect.maxPktSent ▸ hMax
  · rw [hEffect.maxPktSent]
    rcases hEffect.acked with ⟨h, _⟩ | ⟨h, hLe, _⟩
    · exact h ▸ hAcked
    · exact h ▸ hLe
  · intro hDone
    rcases hEffect.acked with ⟨h, hSame⟩ | ⟨h, _, hNew, hLt⟩
    · exact h ▸ hBounded.finished (hSame ▸ hDone)
    · rw [hNew, Bool.or_eq_true, decide_eq_true_eq] at hDone
      rw [h]
      rcases hDone with hOld | hLast
      · exact Nat.le_trans (hBounded.finished hOld)
          (Nat.le_of_lt hLt)
      · exact hLast

end Upload

theorem ulLoss_effect
    (ul : Upload)
    (ack : Word) :
    ul.AckEffect ack (ulLoss ul) where
  hasIndex := rfl
  pIndex := rfl
  maxPktSent := rfl
  data := rfl
  sent := Or.inr (Or.inl rfl)
  acked := Or.inl ⟨rfl, rfl⟩

theorem newAck_effect
    {ul : Upload}
    {ack : Word}
    (hSent : ack ≤ ul.maxPktSent) :
    ul.AckEffect ack (newAck ul ack) := by
  unfold newAck
  split
  · exact .of_sameCounters (.refl ul)
  · rename_i hNew
    have hSame := ackStatus_sameCounters ul ack
    refine .after_sameCounters hSame
      ⟨rfl, rfl, rfl, rfl, ?_, Or.inr ⟨rfl, ?_, rfl, ?_⟩⟩
    · by_cases hLt : ack < (ackStatus ul ack).lastPktSent
      · exact Or.inl (by simp [wordMax, hLt])
      · refine Or.inr (Or.inr ⟨by simp [wordMax, hLt], ?_⟩)
        exact hSame.maxPktSent ▸ hSent
    · exact hSame.maxPktSent ▸ hSent
    · rw [hSame.lastPktAcked]
      exact BitVec.not_le.mp hNew

theorem ulHandleAck_effect
    (now : Word)
    (ul : Upload)
    (ack : Word) :
    ul.AckEffect ack (ulHandleAck now ul ack) := by
  unfold ulHandleAck
  split
  · exact .of_sameCounters (.refl ul)
  · split
    · exact .of_sameCounters ⟨rfl, rfl, rfl, rfl, rfl, rfl, rfl⟩
    · split
      · exact .of_sameCounters (.refl ul)
      · rename_i hValid
        have hSent : ack ≤ ul.maxPktSent :=
          BitVec.not_lt.mp (fun h => hValid (Or.inl h))
        have hSame :
            ul.SameCounters
              (allowDup (sampleRtt now ul ack) ack) :=
          (sampleRtt_sameCounters now ul ack).trans
            (allowDup_sameCounters _ ack)
        dsimp only
        split
        · refine .after_sameCounters hSame (newAck_effect ?_)
          exact hSame.maxPktSent ▸ hSent
        · split
          · exact .after_sameCounters
              (hSame.trans (setAckCnt_sameCounters _ _))
              (ulLoss_effect _ ack)
          · refine .after_sameCounters
              (hSame.trans (setAckCnt_sameCounters _ _))
              (newAck_effect ?_)
            exact hSame.maxPktSent ▸ hSent

/- An acknowledgement of nothing that was sent is rejected. -/
theorem ulHandleAck_rejects
    (now : Word)
    {ul : Upload}
    {ack : Word}
    (hAbove : ul.maxPktSent < ack) :
    ulHandleAck now ul ack = ul := by
  have hPos : ack ≠ 0 := by
    rintro rfl
    exact absurd hAbove (by simp [BitVec.lt_def])
  unfold ulHandleAck
  rw [if_neg hPos, if_pos (Or.inl hAbove)]
  split <;> rfl

end BtPeer

------------------------------------------------------------
-- The Calls Of An Upload
------------------------------------------------------------

namespace BtPeer

/- The calls send segments of the upload and nothing else. -/
def Upload.SegmentsOf
    (ul : Upload)
    (sent : List PktParam) : Prop :=
  ∀ pp ∈ sent, ∃ seq, pp = ul.segment seq

theorem ulSendLoop_segmentsOf
    (ts : Word → Word)
    (k : Nat)
    (ul : Upload) :
    ul.SegmentsOf (ulSendLoop ts k ul).2.1 := by
  induction k generalizing ul with
  | zero =>
      intro pp hMem
      cases hMem
  | succ k ih =>
      intro pp hMem
      simp only [ulSendLoop] at hMem
      split at hMem
      · cases hMem
      · split at hMem
        · cases hMem
        · split at hMem
          · exact ⟨_, List.mem_singleton.mp hMem⟩
          · rcases List.mem_cons.mp hMem with rfl | hRest
            · exact ⟨_, rfl⟩
            · rcases ih _ pp hRest with ⟨seq, rfl⟩
              exact ⟨seq, rfl⟩

theorem ulSend_segmentsOf
    (ts : Word → Word)
    (ul : Upload) :
    ul.SegmentsOf (ulSend ts ul).2.1 := by
  have hLoop := ulSendLoop_segmentsOf ts sendFuel ul
  have hSame :
      (ulSend ts ul).2.1 =
        (ulSendLoop ts sendFuel ul).2.1 := by
    unfold ulSend
    split <;> rename_i hOut <;> rw [hOut]
  rw [hSame]
  exact hLoop

theorem ulCheckTimeout_segmentsOf
    (now : Word)
    (ts : Word → Word)
    (ul : Upload) :
    ul.SegmentsOf (ulCheckTimeout now ts ul).2.1 := by
  have hNone : ul.SegmentsOf [] := by
    intro pp hMem
    cases hMem
  have hGrow := growCa_sameCounters now ul
  unfold ulCheckTimeout
  split
  · exact hNone
  · dsimp only
    split
    · intro pp hMem
      rcases ulSend_segmentsOf ts _ pp hMem with ⟨seq, rfl⟩
      refine ⟨seq, ?_⟩
      simp only [Upload.segment, ulLoss, hGrow.pIndex,
        hGrow.data]
    · exact hNone

end BtPeer

------------------------------------------------------------
-- Packets On The Network
------------------------------------------------------------

namespace BtPeer

/- The packets that a list of calls puts on the network. -/
def emit
    (stack : Nat → Byte)
    (sent : List PktParam) : List Packet :=
  sent.flatMap (buildPackets ChunkList.zero stack)

/- A DATA packet that carries a segment of `content`. -/
structure CarriesSegment
    (content : Nat → Byte)
    (pkt : Packet) : Prop where
  valid : validPacket pkt = true
  type : PacketType.ofCode pkt.type = some .data
  dataLen : pkt.getDataLen = payloadSize
  first : 0 < pkt.seq.toNat
  last : pkt.seq.toNat ≤ lastSeq
  bytes :
    ∀ i, i < payloadSize →
      pkt.getData i =
        content ((pkt.seq.toNat - 1) * payloadSize + i)

/- An ACK packet that carries `ack`. -/
structure CarriesAck
    (ack : Word)
    (pkt : Packet) : Prop where
  valid : validPacket pkt = true
  type : PacketType.ofCode pkt.type = some .ack
  ack : pkt.ack = ack

/- The packet of one segment. -/
def segmentPacket
    (stack : Nat → Byte)
    (seq : Word)
    (payload : Nat → Byte) : Packet where
  magic := magicNumber
  version := versionNumber
  type := PacketType.data.code
  hdrLen := BitVec.ofNat 16 headerSize
  pktLen := BitVec.ofNat 16 (headerSize + payloadSize)
  seq := seq
  ack := 0
  payload := ByteMemory.memcpy stack 0 payload payloadSize

/- The packet of one acknowledgement. -/
def ackPacket
    (stack : Nat → Byte)
    (ack : Word) : Packet where
  magic := magicNumber
  version := versionNumber
  type := PacketType.ack.code
  hdrLen := BitVec.ofNat 16 headerSize
  pktLen := BitVec.ofNat 16 headerSize
  seq := 0
  ack := ack
  payload := stack

theorem buildPackets_data
    (getchunks : ChunkList)
    (stack : Nat → Byte)
    (pIndex : Nat)
    (seq : Word)
    (payload : Nat → Byte) :
    buildPackets getchunks stack
        (dataParam pIndex seq (some payload)) =
      [segmentPacket stack seq payload] := by
  have hIndex : ¬ ((pIndex : Int) < 0) := by omega
  simp [buildPackets, dataParam, PktParam.clear,
    PktParam.nondata, plainPacket, setHeader, stackPacket,
    segmentPacket, hIndex]

theorem buildPackets_ack
    (getchunks : ChunkList)
    (stack : Nat → Byte)
    (pIndex : Nat)
    (ack : Word) :
    buildPackets getchunks stack (ackParam pIndex ack) =
      [ackPacket stack ack] := by
  have hIndex : ¬ ((pIndex : Int) < 0) := by omega
  simp [buildPackets, ackParam, PktParam.clear,
    PktParam.nondata, plainPacket, setHeader, stackPacket,
    ackPacket, hIndex]

theorem segmentPacket_carries
    (stack : Nat → Byte)
    {seq : Word}
    (hFirst : 0 < seq.toNat)
    (hLast : seq.toNat ≤ lastSeq)
    (content : Nat → Byte) :
    CarriesSegment content
      (segmentPacket stack seq
        (fun i =>
          content ((seq - 1).toNat * payloadSize + i))) := by
  refine ⟨by rfl, by rfl, by rfl, hFirst, hLast, ?_⟩
  intro i hi
  have hPred : (seq - 1).toNat = seq.toNat - 1 := by
    bv_omega
  have hOffset :
      ∀ payload : Nat → Byte,
        (segmentPacket stack seq payload).dataOffset = 0 :=
    fun payload => rfl
  calc
    (segmentPacket stack seq _).getData i =
        ByteMemory.memcpy stack 0
          (fun i => content ((seq - 1).toNat * payloadSize + i))
          payloadSize (0 + i) := by
      rw [Packet.getData, hOffset, Int.toNat_zero]
      rfl
    _ = content ((seq - 1).toNat * payloadSize + i) :=
      ByteMemory.memcpy_inside stack _ hi
    _ = content ((seq.toNat - 1) * payloadSize + i) := by
      rw [hPred]

theorem ackPacket_carries
    (stack : Nat → Byte)
    (ack : Word) :
    CarriesAck ack (ackPacket stack ack) :=
  ⟨by rfl, by rfl, rfl⟩

/-
  Everything a mapped upload sends carries one of the
  segments described by `P`.
-/
theorem emit_segments
    (stack : Nat → Byte)
    {ul : Upload}
    {content : Nat → Byte}
    (hData : ul.data = some content)
    {P : Word → Prop}
    {sent : List PktParam}
    (hSent :
      ∀ pp ∈ sent,
        ∃ seq : Word,
          pp = ul.segment seq ∧ 0 < seq.toNat ∧
            seq.toNat ≤ lastSeq ∧ P seq)
    {pkt : Packet}
    (hMem : pkt ∈ emit stack sent) :
    CarriesSegment content pkt ∧ P pkt.seq := by
  rcases List.mem_flatMap.mp hMem with ⟨pp, hPP, hBuilt⟩
  rcases hSent pp hPP with ⟨seq, hSeg, hFirst, hLast, hP⟩
  rw [hSeg, Upload.segment, hData, Option.map_some,
    buildPackets_data] at hBuilt
  rw [List.mem_singleton.mp hBuilt]
  exact ⟨segmentPacket_carries stack hFirst hLast content, hP⟩

end BtPeer
