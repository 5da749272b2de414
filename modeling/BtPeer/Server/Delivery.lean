import BtPeer.Server.Events
import BtPeer.Transfer.Receiver

/-
  A download that is sent its segments in order completes
  with the last one.

  Key definitions include:
    * `IsSegment`
    * `Download.InOrder`
    * `deliver`

  Key theorems include:
    * `dlRecv_inOrder`
    * `deliver_completes`
-/

------------------------------------------------------------
-- Segments In Order
------------------------------------------------------------

namespace BtPeer

open RingWindow

/- A full DATA packet with sequence number `n`. -/
structure IsSegment
    (n : Nat)
    (pkt : Packet) : Prop where
  valid : validPacket pkt = true
  type : PacketType.ofCode pkt.type = some .data
  seq : pkt.seq.toNat = n
  length : pkt.getDataLen = payloadSize

/- Segments 1 to `n` have arrived, and nothing else. -/
structure Download.InOrder
    (n : Nat)
    (dl : Download) : Prop where
  running : dl.finished = false
  next : dl.rwin.nextSeq.toNat = n + 1
  clear : ∀ seq, dl.rwin.toRing.has seq = false
  length : dl.started = true → dl.dataLength = payloadSize

theorem dlInit_inOrder
    (now : Word)
    (pIndex getIndex : Nat)
    (filename : CString) :
    (dlInit now pIndex getIndex filename).InOrder 0 where
  running := rfl
  next := rfl
  clear := toRing_init_has
  length := by
    intro hStarted
    exact absurd hStarted Bool.false_ne_true

/- The window behind the next segment. -/
theorem storeSegment_next
    {n : Nat}
    {dl : Download}
    (hNext : dl.rwin.nextSeq.toNat = n + 1)
    (hClear : ∀ seq, dl.rwin.toRing.has seq = false)
    (hRoom : n < lastSeq)
    {pkt : Packet}
    (hSeq : pkt.seq.toNat = n + 1) :
    (slideAck (storeSegment dl pkt)).rwin.toRing =
      { dl.rwin.toRing with next := n + 2 } := by
  have hNew : ¬ seqExistIn dl.rwin pkt.seq = true := by
    rw [seqExistIn_eq_has, hClear]
    exact Bool.false_ne_true
  have hStored :
      (storeSegment dl pkt).rwin =
        recvwinMark dl.rwin pkt.seq := by
    unfold storeSegment
    rw [if_neg hNew]
  have hLimit :
      (recvwinMark dl.rwin pkt.seq).nextSeq.toNat + 1024 <
        4294967296 := by
    change dl.rwin.nextSeq.toNat + 1024 < _
    rw [lastSeq_eq] at hRoom
    omega
  calc
    (slideAck (storeSegment dl pkt)).rwin.toRing =
        (recvwinSlideack
          (recvwinMark dl.rwin pkt.seq)).toRing := by
      rw [← hStored]
      rfl
    _ = (recvwinMark dl.rwin pkt.seq).toRing.slide :=
      toRing_slideack _ hLimit
    _ = (dl.rwin.toRing.mark dl.rwin.toRing.next).slide := by
      rw [toRing_mark, toRing_next, hSeq, hNext]
    _ = { dl.rwin.toRing with next := n + 2 } := by
      rw [SlotRing.slide_mark_next hClear, toRing_next, hNext]

/- The next segment passes the tests of `dl_recv`. -/
theorem dlRecv_next
    {n : Nat}
    {dl : Download}
    (hOrder : dl.InOrder n)
    (hRoom : n < lastSeq)
    {pkt : Packet}
    (hSegment : IsSegment (n + 1) pkt)
    (now ts : Word) :
    (dlRecv now ts dl pkt).1 =
      markFinished
        { slideAck (storeSegment (recordLength now dl pkt) pkt)
          with
          ts := ts
          timeoutCnt := 0 } := by
  let noted := recordLength now dl pkt
  have hSame := recordLength_same now dl pkt
  have hLast : n < 512 := hRoom
  have hNext : noted.rwin.nextSeq.toNat = n + 1 := by
    rw [hSame.rwin]
    exact hOrder.next
  have hFit : seqFitIn noted.rwin pkt.seq = true := by
    rw [seqFitIn_iff _ _ (by omega), toRing_next,
      hSegment.seq, hNext]
    omega
  have hOffset :
      segmentOffset noted pkt.seq = n * payloadSize := by
    have hPred : (pkt.seq - 1).toNat = n := by
      have hSeq := hSegment.seq
      bv_omega
    rw [segmentOffset, hPred,
      recordLength_dataLength hOrder.length hSegment.length]
  have hSize :
      ¬ btChunkSize <
          segmentOffset noted pkt.seq +
            pkt.getDataLen.toNat := by
    rw [hOffset, hSegment.length, Int.toNat_natCast,
      btChunkSize_eq, payloadSize_eq]
    omega
  have hPasses :
      ¬ (! seqFitIn noted.rwin pkt.seq ||
        decide
          (btChunkSize <
            segmentOffset noted pkt.seq +
              pkt.getDataLen.toNat)) = true := by
    rw [hFit, decide_eq_false hSize]
    decide
  unfold dlRecv
  rw [if_neg (Bool.eq_false_iff.mp hOrder.running)]
  dsimp only
  rw [if_neg hPasses]
  rfl

/- The next segment is taken, and the last one completes. -/
theorem dlRecv_inOrder
    {n : Nat}
    {dl : Download}
    (hOrder : dl.InOrder n)
    (hRoom : n < lastSeq)
    {pkt : Packet}
    (hSegment : IsSegment (n + 1) pkt)
    (now ts : Word) :
    (n + 1 < lastSeq →
      (dlRecv now ts dl pkt).1.InOrder (n + 1)) ∧
      (n + 1 = lastSeq →
        (dlRecv now ts dl pkt).1.finished = true) := by
  let noted := recordLength now dl pkt
  let slid := slideAck (storeSegment noted pkt)
  have hSame := recordLength_same now dl pkt
  have hLength : noted.dataLength = payloadSize :=
    recordLength_dataLength hOrder.length hSegment.length now
  have hNext : noted.rwin.nextSeq.toNat = n + 1 := by
    rw [hSame.rwin]
    exact hOrder.next
  have hClear : ∀ seq, noted.rwin.toRing.has seq = false := by
    rw [hSame.rwin]
    exact hOrder.clear
  have hRing : slid.rwin.toRing =
      { noted.rwin.toRing with next := n + 2 } :=
    storeSegment_next hNext hClear hRoom hSegment.seq
  have hExpected : slid.rwin.nextSeq.toNat = n + 2 :=
    congrArg SlotRing.next hRing
  have hSlid : slid.dataLength = payloadSize := by
    simp only [slid, slideAck_dataLength,
      storeSegment_dataLength, hLength]
  have hDone :
      btChunkSize ≤
          (slid.nextPktExpected - 1).toNat *
            slid.dataLength ↔
        512 ≤ n + 1 := by
    have hLast : n < 512 := hRoom
    have hPrevious :
        (slid.rwin.nextSeq - 1).toNat = n + 1 := by
      bv_omega
    change
      btChunkSize ≤
          (slid.rwin.nextSeq - 1).toNat * slid.dataLength ↔ _
    rw [hPrevious, hSlid, btChunkSize_eq, payloadSize_eq]
    omega
  rw [dlRecv_next hOrder hRoom hSegment]
  constructor
  · intro hMore
    have hOpen : ¬ 512 ≤ n + 1 := Nat.not_le.mpr hMore
    have hKept :
        markFinished { slid with ts := ts, timeoutCnt := 0 } =
          { slid with ts := ts, timeoutCnt := 0 } :=
      if_neg (fun hFull => hOpen (hDone.mp hFull))
    rw [hKept]
    constructor
    case running =>
      simp only [slid, slideAck_finished,
        storeSegment_finished]
      exact hSame.finished.trans hOrder.running
    case next => exact hExpected
    case clear =>
      intro seq
      have hHas := hClear seq
      rw [hRing]
      exact hHas
    case length => exact fun _ => hSlid
  · intro hEnd
    have hEnough : 512 ≤ n + 1 := Nat.le_of_eq hEnd.symm
    unfold markFinished
    rw [if_pos (hDone.mpr hEnough)]

end BtPeer

------------------------------------------------------------
-- Deliveries
------------------------------------------------------------

namespace BtPeer

open PeerServer

/- Peer `p` is downloading and has sent `n` segments so far. -/
structure Delivered
    (n : Nat)
    (sender : Address)
    (p : Nat)
    (s : PeerServer) : Prop where
  sender : addr2Index s sender = some p
  alive : (s.peer p).isAlive = true
  downloading : (s.peer p).isDownloading = true
  inOrder : (s.peer p).dl.InOrder n

/- The first `n` of the packets `pkts`, in order. -/
def deliver
    (env : Env)
    (pkts : Nat → Packet)
    (sender : Address)
    (n : Nat) : List ServerEvent :=
  (List.range n).map (fun k => .packet env (pkts k) sender)

theorem deliver_succ
    (env : Env)
    (pkts : Nat → Packet)
    (sender : Address)
    (n : Nat) :
    deliver env pkts sender (n + 1) =
      deliver env pkts sender n ++
        [.packet env (pkts n) sender] := by
  simp [deliver, List.range_succ]

theorem addr2Index_updateDownload
    (env : Env)
    (s : PeerServer)
    (p : Nat)
    (pkt : Packet)
    (addr : Address) :
    addr2Index (updateDownload env s p pkt) addr =
      addr2Index s addr := by
  unfold updateDownload
  rcases dlRecv env.rttNow (env.dlTs p) (s.peer p).dl pkt with
    ⟨dl, sent, ok⟩
  have hAddr :
      ({ s.peer p with dl := dl } : Peer).addr =
        (s.peer p).addr := rfl
  exact addr2Index_setPeer s hAddr addr

/- A DATA packet that finds its peer downloading. -/
theorem step_data
    (sha1 : List Byte → Nat → Byte)
    (env : Env)
    {s : PeerServer}
    {pkt : Packet}
    {sender : Address}
    {p : Nat}
    (hValid : validPacket pkt = true)
    (hType : PacketType.ofCode pkt.type = some .data)
    (hSender : addr2Index s sender = some p)
    (hAlive : (s.peer p).isAlive = true)
    (hDownloading : (s.peer p).isDownloading = true) :
    s.step sha1 (.packet env pkt sender) =
      let s := updateDownload env s p pkt
      if (s.peer p).dl.finished then
        let s := completeDownload sha1 env s p
        if 0 < s.dlRemain then refreshChunkDownload env s
        else s
      else s := by
  simp only [PeerServer.step, if_pos hValid, parsePacket,
    hSender, hType, handleData, hAlive, hDownloading,
    Bool.not_true, Bool.or_false, Bool.false_eq_true,
    if_false]

/- A segment that is not the last one is only stored. -/
theorem step_delivered_eq
    (sha1 : List Byte → Nat → Byte)
    (env : Env)
    {n p : Nat}
    {sender : Address}
    {s : PeerServer}
    (hDelivered : Delivered n sender p s)
    (hMore : n + 1 < lastSeq)
    {pkt : Packet}
    (hSegment : IsSegment (n + 1) pkt) :
    s.step sha1 (.packet env pkt sender) =
        updateDownload env s p pkt ∧
      ((updateDownload env s p pkt).peer p).dl.InOrder
        (n + 1) := by
  have hDl := updateDownload_dl env s p pkt
  have hNext :=
    (dlRecv_inOrder hDelivered.inOrder
      (Nat.lt_of_succ_lt hMore) hSegment env.rttNow
      (env.dlTs p)).1 hMore
  rw [← hDl] at hNext
  have hData :=
    step_data sha1 env hSegment.valid hSegment.type
      hDelivered.sender hDelivered.alive
      hDelivered.downloading
  refine ⟨hData.trans ?_, hNext⟩
  dsimp only
  rw [hNext.running]
  rfl

theorem step_delivered
    (sha1 : List Byte → Nat → Byte)
    (env : Env)
    {n p : Nat}
    {sender : Address}
    {s : PeerServer}
    (hDelivered : Delivered n sender p s)
    (hMore : n + 1 < lastSeq)
    {pkt : Packet}
    (hSegment : IsSegment (n + 1) pkt) :
    let s' := s.step sha1 (.packet env pkt sender)
    s'.books = s.books ∧ Delivered (n + 1) sender p s' := by
  intro s'
  have hBooks := updateDownload_books env s p pkt
  rcases step_delivered_eq sha1 env hDelivered hMore hSegment
    with ⟨hStep, hNext⟩
  have hSlot := congrFun (congrArg Books.slot hBooks) p
  simp only [s', hStep]
  refine ⟨hBooks, ?_, ?_, ?_, hNext⟩
  · rw [addr2Index_updateDownload]
    exact hDelivered.sender
  · exact (congrArg Slot.alive hSlot).trans hDelivered.alive
  · exact (congrArg Slot.downloading hSlot).trans
      hDelivered.downloading

/- All segments but the last leave the books alone. -/
theorem run_deliver
    (sha1 : List Byte → Nat → Byte)
    (env : Env)
    {p : Nat}
    {sender : Address}
    {s : PeerServer}
    (hStart : Delivered 0 sender p s)
    {pkts : Nat → Packet}
    (hSegments :
      ∀ k, k < lastSeq → IsSegment (k + 1) (pkts k))
    {n : Nat}
    (hMore : n < lastSeq) :
    let s' :=
      EventMachine.run (PeerServer.step sha1) s
        (deliver env pkts sender n)
    s'.books = s.books ∧ Delivered n sender p s' := by
  induction n with
  | zero => exact ⟨rfl, hStart⟩
  | succ n ih =>
      rcases ih (Nat.lt_of_succ_lt hMore) with
        ⟨hBooks, hDelivered⟩
      have hStep :=
        step_delivered sha1 env hDelivered hMore
          (hSegments n (Nat.lt_of_succ_lt hMore))
      rw [deliver_succ, EventMachine.run_concat]
      exact ⟨hStep.1.trans hBooks, hStep.2⟩

/-
  A condition on the books holds along the delivery, whose
  segments are all taken in the same books.
-/
theorem along_deliver
    (sha1 : List Byte → Nat → Byte)
    (env : Env)
    {p : Nat}
    {sender : Address}
    {s : PeerServer}
    (hStart : Delivered 0 sender p s)
    {pkts : Nat → Packet}
    (hSegments :
      ∀ k, k < lastSeq → IsSegment (k + 1) (pkts k))
    {ok : PeerServer → ServerEvent → Prop}
    (hOk :
      ∀ s' pkt, s'.books = s.books →
        addr2Index s' sender = some p →
        ok s' (.packet env pkt sender))
    {n : Nat}
    (hn : n ≤ lastSeq) :
    EventMachine.Along (PeerServer.step sha1) ok s
      (deliver env pkts sender n) := by
  induction n with
  | zero => trivial
  | succ n ih =>
      rcases run_deliver sha1 env hStart hSegments
          (Nat.lt_of_succ_le hn) with
        ⟨hBooks, hDelivered⟩
      rw [deliver_succ, EventMachine.along_append]
      exact ⟨ih (Nat.le_of_succ_le hn),
        hOk _ _ hBooks hDelivered.sender, trivial⟩

/- The last segment completes the download. -/
theorem deliver_completes
    (sha1 : List Byte → Nat → Byte)
    (env : Env)
    {p : Nat}
    {sender : Address}
    {s : PeerServer}
    (hStart : Delivered 0 sender p s)
    {pkts : Nat → Packet}
    (hSegments :
      ∀ k, k < lastSeq → IsSegment (k + 1) (pkts k)) :
    let s' :=
      EventMachine.run (PeerServer.step sha1) s
        (deliver env pkts sender 511)
    s'.books = s.books ∧
      Completes env s' (pkts 511) sender p := by
  have hMore : 511 < lastSeq := by decide
  rcases run_deliver sha1 env hStart hSegments hMore with
    ⟨hBooks, hDelivered⟩
  have hSegment := hSegments 511 hMore
  have hLast :=
    (dlRecv_inOrder hDelivered.inOrder hMore hSegment
      env.rttNow (env.dlTs p)).2 rfl
  exact ⟨hBooks, hSegment.valid, hSegment.type,
    hDelivered.sender, hDelivered.alive,
    hDelivered.downloading, hLast⟩

/-
  Nothing is asked for behind a completion that leaves no
  chunk to fetch.
-/
theorem completes_books
    (sha1 : List Byte → Nat → Byte)
    {env : Env}
    {s : PeerServer}
    {pkt : Packet}
    {sender : Address}
    {p : Nat}
    (hDone : Completes env s pkt sender p)
    (hRemain :
      (s.books.finishDownload p
        (lastWrite sha1 env s pkt p)).dlRemain ≤ 0) :
    (s.step sha1 (.packet env pkt sender)).books =
      s.books.finishDownload p
        (lastWrite sha1 env s pkt p) := by
  have hComplete :=
    completeDownload_books sha1 env
      (updateDownload env s p pkt) p
  rw [updateDownload_books] at hComplete
  have hFinished := hDone.finished
  rw [← updateDownload_dl] at hFinished
  have hStop :
      ¬ 0 < (completeDownload sha1 env
        (updateDownload env s p pkt) p).dlRemain := by
    have hSame := congrArg Books.dlRemain hComplete
    exact Int.not_lt.mpr (hSame.le.trans hRemain)
  rw [step_data sha1 env hDone.valid hDone.type hDone.sender
    hDone.alive hDone.downloading]
  dsimp only
  rw [if_pos hFinished, if_neg hStop]
  exact hComplete

/- What is written, when the hash of the chunk is right. -/
theorem lastWrite_of_hash
    {sha1 : List Byte → Nat → Byte}
    {env : Env}
    {s : PeerServer}
    {p : Nat}
    (hHash :
      ∀ data,
        binary2hex (sha1 data) sha1HashSize =
          (s.getchunks.chunks
            (s.peer p).dl.getIndex).sha1.take
              sha1HashStrSize)
    (hOpen : env.openOk = true)
    (pkt : Packet) :
    ∃ buffer,
      lastWrite sha1 env s pkt p =
        some
          { position := savePosition env s (s.peer p).dl
            buffer := buffer
            length := min env.written btChunkSize } := by
  have hBooks := updateDownload_books env s p pkt
  have hCheck :
      checkHashSucceed sha1 (updateDownload env s p pkt)
          ((updateDownload env s p pkt).peer p).dl =
        true := by
    unfold checkHashSucceed
    rw [chunk_of_books hBooks p, decide_eq_true_eq]
    exact hHash _
  refine
    ⟨((updateDownload env s p pkt).peer p).dl.buffer, ?_⟩
  unfold lastWrite savedWrite
  rw [if_pos ⟨hCheck, hOpen⟩, bufferWrite,
    savePosition_of_books env hBooks p]

/-
  A download that gets its segments in order is saved, when
  its hash is right and the file can be written. It is taken
  to be the last one that is missing.
-/
theorem deliver_saves
    {sha1 : List Byte → Nat → Byte}
    {env : Env}
    {p : Nat}
    {sender : Address}
    {s : PeerServer}
    (hStart : Delivered 0 sender p s)
    {pkts : Nat → Packet}
    (hSegments :
      ∀ k, k < lastSeq → IsSegment (k + 1) (pkts k))
    (hHash :
      ∀ data,
        binary2hex (sha1 data) sha1HashSize =
          (s.getchunks.chunks
            (s.peer p).dl.getIndex).sha1.take
              sha1HashStrSize)
    (hOpen : env.openOk = true)
    (hWritten : btChunkSize ≤ env.written)
    (hRemain : s.dlRemain ≤ 1) :
    ∃ buffer,
      (EventMachine.run (PeerServer.step sha1) s
          (deliver env pkts sender lastSeq)).books =
        s.books.finishDownload p
          (some
            { position := savePosition env s (s.peer p).dl
              buffer := buffer
              length := btChunkSize }) := by
  have hSplit :
      deliver env pkts sender lastSeq =
        deliver env pkts sender 511 ++
          [.packet env (pkts 511) sender] :=
    deliver_succ env pkts sender 511
  rcases deliver_completes sha1 env hStart hSegments with
    ⟨hBooks, hDone⟩
  rw [hSplit, EventMachine.run_concat]
  generalize
    EventMachine.run (PeerServer.step sha1) s
      (deliver env pkts sender 511) = s' at hBooks hDone ⊢
  rw [← chunk_of_books hBooks p] at hHash
  rcases lastWrite_of_hash hHash hOpen (pkts 511) with
    ⟨buffer, hWrite⟩
  rw [savePosition_of_books env hBooks p,
    Nat.min_eq_right hWritten] at hWrite
  refine ⟨buffer, ?_⟩
  rw [completes_books sha1 hDone, hWrite, hBooks]
  rw [Books.finishDownload_dlRemain, hWrite, if_pos]
  · have hLast := congrArg Books.dlRemain hBooks
    change s'.dlRemain = s.dlRemain at hLast
    change s'.dlRemain - 1 ≤ 0
    omega
  · exact fullWrite_chunk _ buffer

theorem sampleSegment_isSegment
    {k : Nat}
    (hk : k < lastSeq) :
    IsSegment (k + 1) (sampleSegment k) where
  valid := rfl
  type := rfl
  seq := by
    have hLt : k < 512 := hk
    simp only [sampleSegment, BitVec.toNat_ofNat]
    omega
  length := rfl

end BtPeer
