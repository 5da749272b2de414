import BtPeer.SendPacket

/-
  The sending side of a transfer (upload.c) and the round
  trip estimate of util.c.

  Readings of `get_timestamp_now` are arguments: `now` for
  the one reading of an event, `ts seq` for the reading
  taken after segment `seq` was sent. The window size log is
  left out.

  Key definitions include:
    * `Upload`
    * `updateRtt`
    * `ulSend`
    * `ulInit`
    * `ulHandleAck`
    * `ulCheckTimeout`

  Key theorems include:
    * `ulSendLoop_spec`
    * `ulSendLoop_failed`
    * `ulSendLoop_stops`
    * `ulSendLoop_one`
    * `ulSend_init`
-/

------------------------------------------------------------
-- Upload State
------------------------------------------------------------

namespace BtPeer

inductive UlStatus where
  | slowStart
  | congestionAvoidance
  | fastRetransmit
  | fastRetransmitSs
  | fastRetransmitCa
deriving DecidableEq, Repr

/-
  `upload_t`. The arrays are indexed by sequence number.
  `data` is the mapped chunk, `none` when nothing is mapped.
-/
structure Upload where
  hasIndex : Nat
  pIndex : Nat
  ackCnt : Nat → Int
  seqTs : Nat → Word
  seqTimeout : Nat → Word
  ssThreshold : Word
  lastPktAcked : Word
  lastPktSent : Word
  maxPktSent : Word
  maxRetransmitSeq : Word
  rtt : Word
  dev : Word
  rto : Word
  windowSize : Word
  caTs : Word
  timeoutCnt : Int
  data : Option (Nat → Byte)
  status : UlStatus
  finished : Bool

/- `memset` to zero. -/
def Upload.zero : Upload where
  hasIndex := 0
  pIndex := 0
  ackCnt := fun _ => 0
  seqTs := fun _ => 0
  seqTimeout := fun _ => 0
  ssThreshold := 0
  lastPktAcked := 0
  lastPktSent := 0
  maxPktSent := 0
  maxRetransmitSeq := 0
  rtt := 0
  dev := 0
  rto := 0
  windowSize := 0
  caTs := 0
  timeoutCnt := 0
  data := none
  status := .slowStart
  finished := false

/- `SS_THRESH` and `MAX_DUP_ACK` of upload.h. -/
def ssThresh : Nat := 64

def maxDupAck : Int := 3

end BtPeer

------------------------------------------------------------
-- Round Trip Estimate
------------------------------------------------------------

namespace BtPeer

/- `update_rtt`: the new estimate and deviation. -/
def updateRtt
    (now rtt dev ts : Word) : Word × Word :=
  if ts = 0 then (rtt, dev)
  else
    let sRtt := now - ts
    let rtt' :=
      if rtt = 0 then sRtt else rtt * 7 / 8 + sRtt / 8
    let sDev :=
      if rtt' < sRtt then sRtt - rtt' else rtt' - sRtt
    let dev' :=
      if dev = 0 then sDev else dev * 3 / 4 + sDev / 4
    (rtt', dev')

end BtPeer

------------------------------------------------------------
-- Sending
------------------------------------------------------------

namespace BtPeer

/- `GET_RTO` with the bootstrap value for an estimate of 0. -/
def getRto (rtt : Word) : Word :=
  if 2 * rtt = 0 then BitVec.ofNat 32 defaultTimeout
  else 2 * rtt

namespace Upload

/- The parameters of the DATA packet of segment `seq`. -/
def segment
    (ul : Upload)
    (seq : Word) : PktParam :=
  dataParam ul.pIndex seq
    (ul.data.map (fun d i =>
      d ((seq - 1).toNat * payloadSize + i)))

/- Record that segment `seq` was sent at time `now`. -/
def recordSent
    (ul : Upload)
    (seq now : Word) : Upload :=
  { ul with
    rto := getRto ul.rtt
    seqTs := Function.update ul.seqTs seq.toNat now }

/- Arm the timer of segment `seq` and count it as sent. -/
def armTimer
    (ul : Upload)
    (seq : Word) : Upload :=
  { ul with
    seqTimeout :=
      Function.update ul.seqTimeout seq.toNat
        (ul.seqTs seq.toNat + ul.rto)
    lastPktSent := seq }

end Upload

/-
  The loop of `ul_send`: the upload after it, the packets
  sent, and whether the clock could always be read. The fuel
  `k` is never used up, see `ulSendLoop_stops`.
-/
def ulSendLoop
    (ts : Word → Word) :
    Nat → Upload → Upload × List PktParam × Bool
| 0, ul => (ul, [], true)
| k + 1, ul =>
    let seq := ul.lastPktSent + 1
    if ul.lastPktAcked + ul.windowSize ≤ ul.lastPktSent then
      (ul, [], true)
    else if lastSeq < seq.toNat then
      (ul, [], true)
    else
      let sent := ul.recordSent seq (ts seq)
      if ts seq = 0 then (sent, [ul.segment seq], false)
      else
        match ulSendLoop ts k (sent.armTimer seq) with
        | (ul', rest, ok) => (ul', ul.segment seq :: rest, ok)

/- More rounds than the loop of `ul_send` can make. -/
def sendFuel : Nat := lastSeq + 2

/-
  `ul_send`; the last component is false for -1. A failed
  clock reading returns at once, with the segment already
  sent and `max_pkt_sent` not updated.
-/
def ulSend
    (ts : Word → Word)
    (ul : Upload) : Upload × List PktParam × Bool :=
  match ulSendLoop ts sendFuel ul with
  | (ul', sent, false) => (ul', sent, false)
  | (ul', sent, true) =>
      ({ ul' with
          maxPktSent :=
            wordMax ul'.maxPktSent ul'.lastPktSent },
        sent, true)

/-
  `ul_init` and `load_data`, with what `mmap` returned; the
  flag is false for -1.
-/
def ulInit
    (pIndex hasIndex : Nat)
    (mapped : Option (Nat → Byte)) : Upload × Bool :=
  ({ Upload.zero with
      windowSize := 1
      pIndex := pIndex
      hasIndex := hasIndex
      ssThreshold := BitVec.ofNat 32 ssThresh
      rtt := BitVec.ofNat 32 (defaultTimeout / 2)
      rto := BitVec.ofNat 32 defaultTimeout
      data := mapped },
    mapped.isSome)

/- `ul_deinit`: the chunk is unmapped. -/
def ulDeinit (ul : Upload) : Upload :=
  { ul with data := none }

end BtPeer

------------------------------------------------------------
-- Acknowledgements And Timeouts
------------------------------------------------------------

namespace BtPeer

/- `ul_loss` -/
def ulLoss (ul : Upload) : Upload :=
  { ul with
    ssThreshold := wordMax (ul.windowSize / 2) 2
    windowSize := 1
    lastPktSent := ul.lastPktAcked
    status := .fastRetransmit
    maxRetransmitSeq := ul.maxPktSent }

/- `MAX_DUP_SEQ` -/
def maxDupSeq
    (ul : Upload)
    (ack : Word) : Int :=
  min 0 (0 - (ack.toInt - (ul.lastPktAcked.toInt + 1)))

/- The round trip sample, taken in slow start and CA only. -/
def sampleRtt
    (now : Word)
    (ul : Upload)
    (ack : Word) : Upload :=
  match ul.status with
  | .slowStart | .congestionAvoidance =>
      let est :=
        updateRtt now ul.rtt ul.dev (ul.seqTs ack.toNat)
      { ul with rtt := est.1, dev := est.2 }
  | _ => ul

/- The allowance for duplicates in the recovery states. -/
def allowDup
    (ul : Upload)
    (ack : Word) : Upload :=
  match ul.status with
  | .fastRetransmitSs | .fastRetransmitCa =>
      { ul with
        ackCnt :=
          Function.update ul.ackCnt ack.toNat
            (maxDupSeq ul ack) }
  | _ => ul

/- The `switch` of `ul_handle_ack` for a new `ack`. -/
def ackStatus
    (ul : Upload)
    (ack : Word) : Upload :=
  match ul.status with
  | .slowStart =>
      let window := ul.windowSize + (ack - ul.lastPktAcked)
      { ul with
        windowSize := window
        status :=
          if ul.ssThreshold < window then
            .congestionAvoidance
          else .slowStart }
  | .congestionAvoidance => ul
  | .fastRetransmit =>
      if ul.lastPktSent ≤ ack then
        { ul with
          status := .fastRetransmitSs
          windowSize := ul.windowSize + 1 }
      else ul
  | .fastRetransmitSs =>
      let window := ul.windowSize + 1
      { ul with
        windowSize := window
        status :=
          if ul.maxRetransmitSeq ≤ ack then .slowStart
          else if ul.ssThreshold < window then
            .fastRetransmitCa
          else .fastRetransmitSs }
  | .fastRetransmitCa =>
      if ul.maxRetransmitSeq ≤ ack then
        { ul with status := .congestionAvoidance }
      else ul

/- The part of `ul_handle_ack` behind the duplicate test. -/
def newAck
    (ul : Upload)
    (ack : Word) : Upload :=
  if ack ≤ ul.lastPktAcked then ul
  else
    let ul := ackStatus ul ack
    { ul with
      lastPktSent := wordMax ul.lastPktSent ack
      timeoutCnt := 0
      lastPktAcked := ack
      finished := ul.finished || decide (lastSeq ≤ ack.toNat) }

/- `ul_handle_ack` -/
def ulHandleAck
    (now : Word)
    (ul : Upload)
    (ack : Word) : Upload :=
  if ul.finished then ul
  else if ack = 0 then { ul with timeoutCnt := 0 }
  else if ul.maxPktSent < ack ∨ ack < ul.lastPktAcked then ul
  else
    let ul := allowDup (sampleRtt now ul ack) ack
    if ul.status = .fastRetransmit then newAck ul ack
    else
      let cnt := ul.ackCnt ack.toNat + 1
      if maxDupAck < cnt then
        ulLoss
          { ul with
            ackCnt :=
              Function.update ul.ackCnt ack.toNat 0 }
      else
        newAck
          { ul with
            ackCnt :=
              Function.update ul.ackCnt ack.toNat cnt }
          ack

/- The window growth of `ul_check_timeout`, once per RTT. -/
def growCa
    (now : Word)
    (ul : Upload) : Upload :=
  match ul.status with
  | .congestionAvoidance | .fastRetransmitCa =>
      let caTs :=
        if ul.caTs = 0 then now + ul.rtt else ul.caTs
      if caTs < now then
        { ul with
          windowSize := ul.windowSize + 1
          caTs := now + ul.rtt }
      else { ul with caTs := caTs }
  | _ => ul

/- The segment whose timer `ul_check_timeout` looks at. -/
def timerExpired
    (now : Word)
    (ul : Upload) : Bool :=
  let timeout := ul.seqTimeout (ul.lastPktAcked + 1).toNat
  ! (timeout = 0 || now < timeout)

/-
  `ul_check_timeout`: the upload, the packets sent again, and
  the number of continuous timeouts, -1 when finished.
-/
def ulCheckTimeout
    (now : Word)
    (ts : Word → Word)
    (ul : Upload) : Upload × List PktParam × Int :=
  if ul.finished then (ul, [], -1)
  else
    let ul := growCa now ul
    if timerExpired now ul then
      let ul :=
        ulLoss
          { ul with
            rtt :=
              wordMin (ul.rtt * 2)
                (BitVec.ofNat 32 (defaultTimeout / 4))
            timeoutCnt := ul.timeoutCnt + 1 }
      match ulSend ts ul with
      | (ul', sent, _) => (ul', sent, ul'.timeoutCnt)
    else (ul, [], ul.timeoutCnt)

end BtPeer

------------------------------------------------------------
-- What The Sending Loop Does
------------------------------------------------------------

namespace BtPeer

namespace Upload

/- The fields that sending segments leaves unchanged. -/
structure SameSession (ul ul' : Upload) : Prop where
  hasIndex : ul'.hasIndex = ul.hasIndex
  pIndex : ul'.pIndex = ul.pIndex
  lastPktAcked : ul'.lastPktAcked = ul.lastPktAcked
  windowSize : ul'.windowSize = ul.windowSize
  timeoutCnt : ul'.timeoutCnt = ul.timeoutCnt
  data : ul'.data = ul.data
  status : ul'.status = ul.status
  finished : ul'.finished = ul.finished

end Upload

/- A segment number below the last one does not wrap. -/
theorem toNat_succ_of_le
    {w : Word}
    (hLe : w.toNat ≤ lastSeq) :
    (w + 1).toNat = w.toNat + 1 := by
  simp only [lastSeq_eq] at hLe
  bv_omega

theorem Upload.SameSession.refl
    (ul : Upload) :
    ul.SameSession ul :=
  ⟨rfl, rfl, rfl, rfl, rfl, rfl, rfl, rfl⟩

theorem ulSendLoop_same
    (ts : Word → Word)
    (k : Nat)
    (ul : Upload) :
    ul.SameSession (ulSendLoop ts k ul).1 := by
  induction k generalizing ul with
  | zero => exact .refl ul
  | succ k ih =>
      simp only [ulSendLoop]
      split
      · exact .refl ul
      · split
        · exact .refl ul
        · split
          · exact ⟨rfl, rfl, rfl, rfl, rfl, rfl, rfl, rfl⟩
          · have hRest :=
              ih ((ul.recordSent (ul.lastPktSent + 1)
                (ts (ul.lastPktSent + 1))).armTimer
                  (ul.lastPktSent + 1))
            exact ⟨hRest.hasIndex, hRest.pIndex,
              hRest.lastPktAcked, hRest.windowSize,
              hRest.timeoutCnt, hRest.data, hRest.status,
              hRest.finished⟩

theorem ulSend_same
    (ts : Word → Word)
    (ul : Upload) :
    ul.SameSession (ulSend ts ul).1 := by
  have hLoop := ulSendLoop_same ts sendFuel ul
  unfold ulSend
  split
  · rename_i ul' sent hOut
    rw [hOut] at hLoop
    exact hLoop
  · rename_i ul' sent hOut
    rw [hOut] at hLoop
    exact ⟨hLoop.hasIndex, hLoop.pIndex, hLoop.lastPktAcked,
      hLoop.windowSize, hLoop.timeoutCnt, hLoop.data,
      hLoop.status, hLoop.finished⟩

/-
  The loop sends the segments behind `last_pkt_sent` in
  order. Every segment it sends is counted as sent, except
  one whose time could not be read.
-/
theorem ulSendLoop_spec
    (ts : Word → Word)
    (k : Nat)
    (ul : Upload)
    (hSent : ul.lastPktSent.toNat ≤ lastSeq) :
    let out := ulSendLoop ts k ul
    out.1.maxPktSent = ul.maxPktSent ∧
      ul.lastPktSent.toNat ≤ out.1.lastPktSent.toNat ∧
      out.1.lastPktSent.toNat ≤ lastSeq ∧
      ∀ pp ∈ out.2.1,
        ∃ seq : Word,
          pp = ul.segment seq ∧
            ul.lastPktSent.toNat < seq.toNat ∧
            seq.toNat ≤ lastSeq ∧
            (seq.toNat ≤ out.1.lastPktSent.toNat ∨
              (out.2.2 = false ∧ ts seq = 0 ∧
                seq.toNat =
                  out.1.lastPktSent.toNat + 1)) := by
  induction k generalizing ul with
  | zero =>
      refine ⟨rfl, Nat.le_refl _, hSent, ?_⟩
      intro pp hMem
      simp [ulSendLoop] at hMem
  | succ k ih =>
      have hSucc := toNat_succ_of_le hSent
      simp only [ulSendLoop]
      split
      · refine ⟨rfl, Nat.le_refl _, hSent, ?_⟩
        intro pp hMem
        simp at hMem
      · split
        · refine ⟨rfl, Nat.le_refl _, hSent, ?_⟩
          intro pp hMem
          simp at hMem
        · rename_i hTail
          have hNext :
              (ul.lastPktSent + 1).toNat ≤ lastSeq := by
            omega
          split
          · rename_i hZero
            refine ⟨rfl, Nat.le_refl _, hSent, ?_⟩
            intro pp hMem
            refine ⟨ul.lastPktSent + 1,
              List.mem_singleton.mp hMem, by omega, hNext,
              Or.inr ⟨rfl, hZero, hSucc⟩⟩
          · rcases ih
                ((ul.recordSent (ul.lastPktSent + 1)
                  (ts (ul.lastPktSent + 1))).armTimer
                    (ul.lastPktSent + 1)) hNext with
              ⟨hMax, hLow, hHigh, hAll⟩
            refine ⟨hMax, ?_, hHigh, ?_⟩
            · simp only [Upload.armTimer] at hLow ⊢
              omega
            · intro pp hMem
              simp only [Upload.armTimer] at hLow hAll ⊢
              rcases List.mem_cons.mp hMem with rfl | hRest
              · exact ⟨ul.lastPktSent + 1, rfl, by omega,
                  hNext, Or.inl hLow⟩
              · rcases hAll pp hRest with
                  ⟨seq, hSeg, hGt, hLe, hCounted⟩
                exact ⟨seq, hSeg, by omega, hLe, hCounted⟩

/- The loop fails at the segment behind the last one sent. -/
theorem ulSendLoop_failed
    (ts : Word → Word)
    (k : Nat)
    (ul : Upload)
    (hFail : (ulSendLoop ts k ul).2.2 = false) :
    ts ((ulSendLoop ts k ul).1.lastPktSent + 1) = 0 := by
  induction k generalizing ul with
  | zero => simp [ulSendLoop] at hFail
  | succ k ih =>
      simp only [ulSendLoop] at hFail ⊢
      split at hFail
      · simp at hFail
      · split at hFail
        · simp at hFail
        · rename_i hWindow hTail
          rw [if_neg hWindow, if_neg hTail]
          by_cases hZero : ts (ul.lastPktSent + 1) = 0
          · rw [if_pos hZero]
            exact hZero
          · rw [if_neg hZero] at hFail ⊢
            exact ih _ hFail

/-
  The loop ends by one of its own tests: the window is used
  up, the last segment was sent, or the clock failed.
-/
theorem ulSendLoop_stops
    (ts : Word → Word)
    (k : Nat)
    (ul : Upload)
    (hFuel :
      (ul.lastPktSent + 1).toNat ≤ lastSeq →
        lastSeq < k + (ul.lastPktSent + 1).toNat) :
    let out := ulSendLoop ts k ul
    out.2.2 = false ∨
      out.1.lastPktAcked + out.1.windowSize ≤
        out.1.lastPktSent ∨
      lastSeq < (out.1.lastPktSent + 1).toNat := by
  induction k generalizing ul with
  | zero =>
      right
      right
      simp only [ulSendLoop]
      omega
  | succ k ih =>
      simp only [ulSendLoop]
      split
      · rename_i hWindow
        exact Or.inr (Or.inl hWindow)
      · split
        · rename_i hTail
          exact Or.inr (Or.inr hTail)
        · rename_i hTail
          split
          · exact Or.inl rfl
          · apply ih
            intro hNext
            have hSucc :=
              toNat_succ_of_le (w := ul.lastPktSent + 1)
                (by omega)
            simp only [Upload.armTimer] at hNext ⊢
            omega

/- The fuel of `ul_send` is enough from every state. -/
theorem ulSend_stops
    (ts : Word → Word)
    (ul : Upload) :
    let out := ulSendLoop ts sendFuel ul
    out.2.2 = false ∨
      out.1.lastPktAcked + out.1.windowSize ≤
        out.1.lastPktSent ∨
      lastSeq < (out.1.lastPktSent + 1).toNat := by
  apply ulSendLoop_stops
  intro _
  simp only [sendFuel, lastSeq_eq]
  omega

/-
  With everything sent acknowledged and a window of 1, the
  loop makes one round.
-/
theorem ulSendLoop_one
    (ts : Word → Word)
    (k : Nat)
    {ul : Upload}
    (hSent : ul.lastPktSent = ul.lastPktAcked)
    (hWindow : ul.windowSize = 1)
    (hTail : ul.lastPktAcked.toNat < lastSeq) :
    let seq := ul.lastPktAcked + 1
    ulSendLoop ts (k + 2) ul =
      if ts seq = 0 then
        (ul.recordSent seq (ts seq), [ul.segment seq], false)
      else
        ((ul.recordSent seq (ts seq)).armTimer seq,
          [ul.segment seq], true) := by
  intro seq
  have hSucc : seq.toNat = ul.lastPktAcked.toNat + 1 :=
    toNat_succ_of_le (Nat.le_of_lt hTail)
  have hOpen :
      ¬ ul.lastPktAcked + ul.windowSize ≤ ul.lastPktSent := by
    have hSum : ul.lastPktAcked + 1 = seq := rfl
    rw [hSent, hWindow, hSum, BitVec.le_def]
    omega
  have hFull :
      ul.lastPktAcked + ul.windowSize ≤ seq := by
    rw [hWindow]
    exact BitVec.le_refl seq
  have hNext : ul.lastPktSent + 1 = seq := by rw [hSent]
  have hLast : ¬ lastSeq < seq.toNat := by omega
  by_cases hZero : ts seq = 0
  · rw [if_pos hZero, ulSendLoop]
    simp only [hNext]
    rw [if_neg hOpen, if_neg hLast, if_pos hZero]
  · have hRest :
        ulSendLoop ts (k + 1)
            ((ul.recordSent seq (ts seq)).armTimer seq) =
          ((ul.recordSent seq (ts seq)).armTimer seq, [],
            true) := by
      rw [ulSendLoop]
      exact if_pos hFull
    rw [if_neg hZero, ulSendLoop]
    simp only [hNext]
    rw [if_neg hOpen, if_neg hLast, if_neg hZero, hRest]

/- A fresh upload sends the first segment, one window full. -/
theorem ulSend_init
    (ts : Word → Word)
    (pIndex hasIndex : Nat)
    (mapped : Option (Nat → Byte)) :
    let out := ulSend ts (ulInit pIndex hasIndex mapped).1
    out.2.2 = decide (ts 1 ≠ 0) ∧
      (ts 1 ≠ 0 → out.1.maxPktSent = 1) := by
  have hLoop :=
    @ulSendLoop_one ts lastSeq
      (ulInit pIndex hasIndex mapped).1 rfl rfl
      (show (0#32).toNat < lastSeq by decide)
  have hFirst :
      (ulInit pIndex hasIndex mapped).1.lastPktAcked + 1 =
        1 := rfl
  simp only [hFirst] at hLoop
  unfold ulSend sendFuel
  rw [hLoop]
  by_cases hZero : ts 1 = 0
  · rw [if_pos hZero]
    refine ⟨?_, fun h => absurd hZero h⟩
    simp only [ne_eq, hZero, not_true_eq_false, decide_false]
  · rw [if_neg hZero]
    refine ⟨?_, fun _ => rfl⟩
    simp only [ne_eq, hZero, not_false_eq_true, decide_true]
end BtPeer
