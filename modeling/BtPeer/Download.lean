import BtPeer.SendPacket
import BtPeer.RecvWin
import BtPeer.Upload

/-
  The receiving side of a transfer (download.c), without
  saving the chunk, which needs the server.

  Key definitions include:
    * `Download`
    * `dlInit`
    * `getAck`
    * `dlRecv`
    * `dlCheckTimeout`

  Key theorems include:
    * `dlRecv_sameTarget`
    * `dlRecv_acksTo`
    * `rejected_untouched_iff`
-/

------------------------------------------------------------
-- Download State
------------------------------------------------------------

namespace BtPeer

/- `download_t`; `size_t` values are natural numbers. -/
structure Download where
  getIndex : Nat
  pIndex : Nat
  ts : Word
  timeoutCnt : Int
  nextPktExpected : Word
  rwin : RecvWin
  filename : CString
  rtt : Word
  dev : Word
  started : Bool
  blockUpdate : Bool
  finished : Bool
  buffer : Nat → Byte
  dataLength : Nat

/- `memset` to zero. -/
def Download.zero : Download where
  getIndex := 0
  pIndex := 0
  ts := 0
  timeoutCnt := 0
  nextPktExpected := 0
  rwin := { bm := fun _ => 0, front := 0, nextSeq := 0 }
  filename := []
  rtt := 0
  dev := 0
  started := false
  blockUpdate := false
  finished := false
  buffer := fun _ => 0
  dataLength := 0

/- `LOSS_ACK_NUM` of download.h. -/
def lossAckNum : Nat := 3

/- `dl_init` -/
def dlInit
    (now : Word)
    (pIndex getIndex : Nat)
    (filename : CString) : Download :=
  { Download.zero with
    nextPktExpected := 1
    pIndex := pIndex
    getIndex := getIndex
    ts := now
    filename := filename
    rwin := initRecvwin }

end BtPeer

------------------------------------------------------------
-- Receiving
------------------------------------------------------------

namespace BtPeer

/- The effect of `get_ack` on the download. -/
def slideAck (dl : Download) : Download :=
  let rwin := recvwinSlideack dl.rwin
  { dl with
    rwin := rwin
    nextPktExpected := rwin.nextSeq }

/- `get_ack` -/
def getAck (dl : Download) : Download × Word :=
  (slideAck dl, (slideAck dl).nextPktExpected - 1)

/-
  The round trip sample, or, for the first packet and the
  first one after a timeout, the segment length.
-/
def recordLength
    (now : Word)
    (dl : Download)
    (pkt : Packet) : Download :=
  if dl.started && ! dl.blockUpdate then
    let est := updateRtt now dl.rtt dl.dev dl.ts
    { dl with rtt := est.1, dev := est.2 }
  else
    { dl with
      dataLength := pkt.getDataLen.toNat
      started := true
      blockUpdate := false }

/- Where the data of segment `seq` belongs in the buffer. -/
def segmentOffset
    (dl : Download)
    (seq : Word) : Nat :=
  (seq - 1).toNat * dl.dataLength

/- Copy the data of a new segment into the buffer. -/
def storeSegment
    (dl : Download)
    (pkt : Packet) : Download :=
  if seqExistIn dl.rwin pkt.seq then dl
  else
    { dl with
      buffer :=
        ByteMemory.memcpy dl.buffer
          (segmentOffset dl pkt.seq) pkt.getData
          pkt.getDataLen.toNat
      rwin := recvwinMark dl.rwin pkt.seq }

/- The completion test at the end of `dl_recv`. -/
def markFinished (dl : Download) : Download :=
  if btChunkSize ≤
      (dl.nextPktExpected - 1).toNat * dl.dataLength then
    { dl with finished := true }
  else dl

/-
  `dl_recv`: the download, the ACK packets sent, and false
  for -1. `now` is read for the round trip sample and `ts`
  at the end.
-/
def dlRecv
    (now ts : Word)
    (dl : Download)
    (pkt : Packet) : Download × List PktParam × Bool :=
  if dl.finished then (dl, [], true)
  else
    let dl := recordLength now dl pkt
    if ! seqFitIn dl.rwin pkt.seq ||
        decide
          (btChunkSize <
            segmentOffset dl pkt.seq +
              pkt.getDataLen.toNat) then
      (dl, [], false)
    else
      match getAck (storeSegment dl pkt) with
      | (dl, ack) =>
          (markFinished { dl with ts := ts, timeoutCnt := 0 },
            [ackParam dl.pIndex ack], true)

/- The acknowledgements of `dl_loss`, `k` of them. -/
def lossAcks : Nat → Download → Download × List PktParam
| 0, dl => (dl, [])
| k + 1, dl =>
    match getAck dl with
    | (dl, ack) =>
        match lossAcks k dl with
        | (dl', sent) =>
            (dl', ackParam dl.pIndex ack :: sent)

/- `dl_loss` -/
def dlLoss
    (ts : Word)
    (dl : Download) : Download × List PktParam :=
  match lossAcks lossAckNum dl with
  | (dl, sent) =>
      ({ dl with ts := ts, blockUpdate := true }, sent)

/-
  `dl_check_timeout`: the download, the packets sent, and
  the number of continuous timeouts, -1 when finished.
-/
def dlCheckTimeout
    (now ts : Word)
    (dl : Download) : Download × List PktParam × Int :=
  if dl.finished then (dl, [], -1)
  else if dl.rtt = 0 ∧
      now - dl.ts < BitVec.ofNat 32 defaultTimeout then
    (dl, [], dl.timeoutCnt)
  else if now - dl.ts <
      BitVec.ofNat 32 (defaultTimeout / 2) then
    (dl, [], dl.timeoutCnt)
  else
    match dlLoss ts { dl with timeoutCnt := dl.timeoutCnt + 1 }
    with
    | (dl, sent) => (dl, sent, dl.timeoutCnt)

end BtPeer

------------------------------------------------------------
-- The Target Of A Download
------------------------------------------------------------

namespace BtPeer

/- The fields that `dl_init` sets for the whole download. -/
structure Download.SameTarget (dl dl' : Download) : Prop where
  getIndex : dl'.getIndex = dl.getIndex
  pIndex : dl'.pIndex = dl.pIndex
  filename : dl'.filename = dl.filename

theorem Download.SameTarget.trans
    {dl dl' dl'' : Download}
    (h : dl.SameTarget dl')
    (h' : dl'.SameTarget dl'') :
    dl.SameTarget dl'' where
  getIndex := h'.getIndex.trans h.getIndex
  pIndex := h'.pIndex.trans h.pIndex
  filename := h'.filename.trans h.filename

theorem recordLength_sameTarget
    (now : Word)
    (dl : Download)
    (pkt : Packet) :
    dl.SameTarget (recordLength now dl pkt) := by
  unfold recordLength
  split <;> exact ⟨rfl, rfl, rfl⟩

theorem storeSegment_sameTarget
    (dl : Download)
    (pkt : Packet) :
    dl.SameTarget (storeSegment dl pkt) := by
  unfold storeSegment
  split <;> exact ⟨rfl, rfl, rfl⟩

theorem markFinished_sameTarget
    (dl : Download) :
    dl.SameTarget (markFinished dl) := by
  unfold markFinished
  split <;> exact ⟨rfl, rfl, rfl⟩

theorem dlRecv_sameTarget
    (now ts : Word)
    (dl : Download)
    (pkt : Packet) :
    dl.SameTarget (dlRecv now ts dl pkt).1 := by
  have hRecord := recordLength_sameTarget now dl pkt
  unfold dlRecv
  split
  · exact ⟨rfl, rfl, rfl⟩
  · dsimp only
    split
    · exact hRecord
    · have hStore :=
        storeSegment_sameTarget (recordLength now dl pkt) pkt
      refine (hRecord.trans hStore).trans ?_
      have hMark :=
        markFinished_sameTarget
          { slideAck
              (storeSegment (recordLength now dl pkt) pkt) with
            ts := ts
            timeoutCnt := 0 }
      exact ⟨hMark.getIndex, hMark.pIndex, hMark.filename⟩

theorem lossAcks_sameTarget
    (k : Nat)
    (dl : Download) :
    dl.SameTarget (lossAcks k dl).1 := by
  induction k generalizing dl with
  | zero => exact ⟨rfl, rfl, rfl⟩
  | succ k ih =>
      have hSlide : dl.SameTarget (slideAck dl) :=
        ⟨rfl, rfl, rfl⟩
      exact hSlide.trans (ih (slideAck dl))

theorem dlCheckTimeout_sameTarget
    (now ts : Word)
    (dl : Download) :
    dl.SameTarget (dlCheckTimeout now ts dl).1 := by
  unfold dlCheckTimeout
  split
  · exact ⟨rfl, rfl, rfl⟩
  · split
    · exact ⟨rfl, rfl, rfl⟩
    · split
      · exact ⟨rfl, rfl, rfl⟩
      · have hLoss :=
          lossAcks_sameTarget lossAckNum
            { dl with timeoutCnt := dl.timeoutCnt + 1 }
        exact ⟨hLoss.getIndex, hLoss.pIndex, hLoss.filename⟩

end BtPeer

------------------------------------------------------------
-- The Calls Of A Download
------------------------------------------------------------

namespace BtPeer

/- The calls send acknowledgements and nothing else. -/
def Download.AcksTo
    (dl : Download)
    (sent : List PktParam) : Prop :=
  ∀ pp ∈ sent, ∃ ack, pp = ackParam dl.pIndex ack

theorem Download.acksTo_nil
    (dl : Download) :
    dl.AcksTo [] := by
  intro pp hMem
  cases hMem

theorem dlRecv_acksTo
    (now ts : Word)
    (dl : Download)
    (pkt : Packet) :
    dl.AcksTo (dlRecv now ts dl pkt).2.1 := by
  unfold dlRecv
  split
  · exact dl.acksTo_nil
  · dsimp only
    split
    · exact dl.acksTo_nil
    · intro pp hMem
      have hTarget :=
        (recordLength_sameTarget now dl pkt).trans
          (storeSegment_sameTarget (recordLength now dl pkt)
            pkt)
      rw [← hTarget.pIndex]
      exact ⟨_, List.mem_singleton.mp hMem⟩

theorem lossAcks_acksTo
    (k : Nat)
    (dl : Download) :
    dl.AcksTo (lossAcks k dl).2 := by
  induction k generalizing dl with
  | zero => exact dl.acksTo_nil
  | succ k ih =>
      intro pp hMem
      simp only [lossAcks] at hMem
      rcases List.mem_cons.mp hMem with rfl | hRest
      · exact ⟨_, rfl⟩
      · exact ih (slideAck dl) pp hRest

theorem dlCheckTimeout_acksTo
    (now ts : Word)
    (dl : Download) :
    dl.AcksTo (dlCheckTimeout now ts dl).2.1 := by
  unfold dlCheckTimeout
  split
  · exact dl.acksTo_nil
  · split
    · exact dl.acksTo_nil
    · split
      · exact dl.acksTo_nil
      · exact lossAcks_acksTo lossAckNum
          { dl with timeoutCnt := dl.timeoutCnt + 1 }

end BtPeer

------------------------------------------------------------
-- Rejected Packets
------------------------------------------------------------

namespace BtPeer

/- What a discarded packet is not supposed to change. -/
structure Download.Untouched (dl dl' : Download) : Prop where
  dataLength : dl'.dataLength = dl.dataLength
  started : dl'.started = dl.started
  blockUpdate : dl'.blockUpdate = dl.blockUpdate
  rwin : dl'.rwin = dl.rwin
  nextPktExpected : dl'.nextPktExpected = dl.nextPktExpected
  buffer : dl'.buffer = dl.buffer
  finished : dl'.finished = dl.finished

/- `dl_recv` returns -1 with the length recorded. -/
theorem dlRecv_rejected
    {now ts : Word}
    {dl : Download}
    {pkt : Packet}
    (hReject : (dlRecv now ts dl pkt).2.2 = false) :
    (dlRecv now ts dl pkt).1 = recordLength now dl pkt := by
  unfold dlRecv at hReject ⊢
  split at hReject
  · cases hReject
  · rename_i hOpen
    rw [if_neg hOpen]
    dsimp only at hReject ⊢
    split at hReject
    · rename_i hOutside
      rw [if_pos hOutside]
    · cases hReject

/-
  A packet that `dl_recv` rejects leaves the download as it
  was exactly when an earlier packet has set the segment
  length and no timeout has unset it.
-/
theorem rejected_untouched_iff
    {now ts : Word}
    {dl : Download}
    {pkt : Packet}
    (hReject : (dlRecv now ts dl pkt).2.2 = false) :
    dl.Untouched (dlRecv now ts dl pkt).1 ↔
      dl.started = true ∧ dl.blockUpdate = false := by
  rw [dlRecv_rejected hReject]
  unfold recordLength
  by_cases hSampled : (dl.started && ! dl.blockUpdate) = true
  · rw [if_pos hSampled]
    rw [Bool.and_eq_true, Bool.not_eq_true'] at hSampled
    constructor
    · intro _
      exact hSampled
    · intro _
      exact ⟨rfl, rfl, rfl, rfl, rfl, rfl, rfl⟩
  · rw [if_neg hSampled]
    constructor
    · intro hSame
      exact ⟨hSame.started.symm, hSame.blockUpdate.symm⟩
    · rintro ⟨hStarted, hUnblocked⟩
      exact absurd (by rw [hStarted, hUnblocked]; rfl) hSampled

/- A DATA packet of `len` bytes that carries segment `seq`. -/
def dataPacket
    (seq : Word)
    (len : Nat) : Packet where
  magic := magicNumber
  version := versionNumber
  type := PacketType.data.code
  hdrLen := BitVec.ofNat 16 headerSize
  pktLen := BitVec.ofNat 16 (headerSize + len)
  seq := seq
  ack := 0
  payload := fun _ => 0

/- A segment outside the window of a started download. -/
theorem rejected_untouched_started :
    let dl := { dlInit 1 0 0 [] with started := true }
    (dlRecv 2 2 dl (dataPacket 2000 1024)).2.2 = false ∧
      dl.Untouched
        (dlRecv 2 2 dl (dataPacket 2000 1024)).1 :=
  ⟨by decide,
    (rejected_untouched_iff (by decide)).mpr
      ⟨by decide, by decide⟩⟩

/-
  The first packet of a download is a valid DATA packet of
  100 bytes with sequence number 2000. It is rejected, and
  its length stays behind as the segment length.
-/
theorem rejected_touches :
    ¬ ∀ (now ts : Word) (dl : Download) (pkt : Packet),
        validPacket pkt = true →
        PacketType.ofCode pkt.type = some .data →
        (dlRecv now ts dl pkt).2.2 = false →
          dl.Untouched (dlRecv now ts dl pkt).1 := by
  intro hAll
  have hSame :=
    hAll 1 1 (dlInit 1 0 0 []) (dataPacket 2000 100)
      (by decide) (by decide) (by decide)
  have hLength := hSame.dataLength
  revert hLength
  decide

end BtPeer
