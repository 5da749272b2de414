import BtPeer.Library.Run
import BtPeer.Transfer.Sender

/-
  One started upload under any acknowledgements and any
  timeout checks: its sequence numbers, its window and its
  timers.

  Key definitions include:
    * `UlEvent.apply`
    * `UlRun.step`
    * `Upload.Paced`
    * `UlRun.Booked`

  Key theorems include:
    * `ulSend_sentOn`
    * `apply_eq`
    * `UlEvent.prepare_invariant`
    * `step_of_parts`
    * `step_booked`
-/

------------------------------------------------------------
-- Runs Of One Upload
------------------------------------------------------------

namespace BtPeer

/-
  What happens to a started upload, with the readings of the
  clock: `now` for the one of the event, `ts seq` for the one
  after segment `seq` was sent.
-/
inductive UlEvent where
  | ack (now : Word) (ts : Word → Word) (num : Word)
  | check (now : Word) (ts : Word → Word)

/- A segment as it was sent, with the `rto` then in force. -/
structure Transmission where
  seq : Word
  time : Word
  rto : Word

/- An upload with the log of what it sent. -/
structure UlRun where
  ul : Upload
  log : List Transmission

namespace UlEvent

def ts : UlEvent → Word → Word
| .ack _ ts _ => ts
| .check _ ts => ts

/- No reading of the clock is 0. -/
def ClockReads : UlEvent → Prop
| .ack now ts _ => now ≠ 0 ∧ ∀ seq, ts seq ≠ 0
| .check now ts => now ≠ 0 ∧ ∀ seq, ts seq ≠ 0

theorem ClockReads.ts
    {e : UlEvent}
    (hClock : e.ClockReads)
    (seq : Word) :
    e.ts seq ≠ 0 := by
  cases e with
  | ack now ts num => exact hClock.2 seq
  | check now ts => exact hClock.2 seq

/-
  `update_upload` on an ACK, or `ul_check_timeout`: the
  upload after it and the packets sent.
-/
def apply
    (e : UlEvent)
    (ul : Upload) : Upload × List PktParam :=
  match e with
  | .ack now ts num =>
      match ulSend ts (ulHandleAck now ul num) with
      | (ul', sent, _) => (ul', sent)
  | .check now ts =>
      match ulCheckTimeout now ts ul with
      | (ul', sent, _) => (ul', sent)

end UlEvent

/- The log entries of the packets sent by one `ul_send`. -/
def transmissions
    (ts : Word → Word)
    (rto : Word)
    (sent : List PktParam) : List Transmission :=
  sent.map (fun pp => ⟨pp.seq, ts pp.seq, rto⟩)

namespace UlEvent

/- What the event sends in this state. -/
def sends
    (e : UlEvent)
    (ul : Upload) : List Transmission :=
  transmissions e.ts (e.apply ul).1.rto (e.apply ul).2

end UlEvent

namespace UlRun

def step
    (r : UlRun)
    (e : UlEvent) : UlRun where
  ul := (e.apply r.ul).1
  log := r.log ++ e.sends r.ul

/- `start_upload`, when it succeeds. -/
def start
    (ts : Word → Word)
    (pIndex hasIndex : Nat)
    (mapped : Option (Nat → Byte)) : Option UlRun :=
  match ulInit pIndex hasIndex mapped with
  | (_, false) => none
  | (ul, true) =>
      match ulSend ts ul with
      | (ul', sent, ok) =>
          if ok then some ⟨ul', transmissions ts ul'.rto sent⟩
          else none

/-
  What `start_upload` leaves behind, whether or not the chunk
  could be mapped and the clock could be read.
-/
def launch
    (ts : Word → Word)
    (pIndex hasIndex : Nat)
    (mapped : Option (Nat → Byte)) : UlRun :=
  match ulInit pIndex hasIndex mapped with
  | (ul, false) => ⟨ul, []⟩
  | (ul, true) =>
      match ulSend ts ul with
      | (ul', sent, _) =>
          ⟨ul', transmissions ts ul'.rto sent⟩

end UlRun

/- A successful `start_upload` leaves a started upload. -/
theorem launch_start
    {ts : Word → Word}
    (hFirst : ts 1 ≠ 0)
    (pIndex hasIndex : Nat)
    (content : Nat → Byte) :
    UlRun.start ts pIndex hasIndex (some content) =
      some (UlRun.launch ts pIndex hasIndex (some content)) := by
  have hOk :
      (ulSend ts
        (ulInit pIndex hasIndex (some content)).1).2.2 =
          true := by
    rw [(ulSend_init ts pIndex hasIndex (some content)).1]
    exact decide_eq_true hFirst
  exact if_pos hOk

theorem launch_pIndex
    (ts : Word → Word)
    (pIndex hasIndex : Nat)
    (mapped : Option (Nat → Byte)) :
    (UlRun.launch ts pIndex hasIndex mapped).ul.pIndex =
      pIndex := by
  cases mapped with
  | none => rfl
  | some content =>
      exact (ulSend_same ts
        (ulInit pIndex hasIndex (some content)).1).pIndex

/- The last time that segment `k` was sent. -/
def lastSent
    (log : List Transmission)
    (k : Nat) : Option Transmission :=
  log.reverse.find? (fun t => t.seq.toNat = k)

theorem lastSent_append
    (log log' : List Transmission)
    (k : Nat) :
    lastSent (log ++ log') k =
      (lastSent log' k).or (lastSent log k) := by
  simp only [lastSent, List.reverse_append, List.find?_append]

theorem lastSent_transmissions
    {ts : Word → Word}
    {rto : Word}
    {sent : List PktParam}
    {seq : Word}
    (hMem : ∃ pp ∈ sent, pp.seq = seq) :
    lastSent (transmissions ts rto sent) seq.toNat =
      some ⟨seq, ts seq, rto⟩ := by
  rcases hMem with ⟨pp, hMem, hSeq⟩
  have hLogged :
      (⟨seq, ts seq, rto⟩ : Transmission) ∈
        (transmissions ts rto sent).reverse := by
    rw [List.mem_reverse]
    exact List.mem_map.mpr ⟨pp, hMem, by rw [hSeq]⟩
  cases hFind :
      lastSent (transmissions ts rto sent) seq.toNat with
  | none =>
      have hNot := List.find?_eq_none.mp hFind _ hLogged
      simp at hNot
  | some t =>
      have hTest := List.find?_some hFind
      have hIn :=
        List.mem_reverse.mp (List.mem_of_find?_eq_some hFind)
      rcases List.mem_map.mp hIn with ⟨pp', _, rfl⟩
      have hSame : pp'.seq = seq :=
        BitVec.eq_of_toNat_eq (of_decide_eq_true hTest)
      rw [hSame]

theorem lastSent_transmissions_none
    {ts : Word → Word}
    {rto : Word}
    {sent : List PktParam}
    {k : Nat}
    (hNone : ∀ pp ∈ sent, pp.seq.toNat ≠ k) :
    lastSent (transmissions ts rto sent) k = none := by
  refine List.find?_eq_none.mpr ?_
  intro t hMem
  rcases List.mem_map.mp (List.mem_reverse.mp hMem) with
    ⟨pp, hPP, rfl⟩
  simpa using hNone pp hPP

end BtPeer

------------------------------------------------------------
-- What Sending Does
------------------------------------------------------------

namespace BtPeer

namespace Upload

/-
  Sending as a whole, whatever the clock reads: the packets
  have the numbers behind `last_pkt_sent`, in order; all are
  counted and have their timer armed, except a last one whose
  time could not be read.
-/
structure Sends
    (ts : Word → Word)
    (ul ul' : Upload)
    (sent : List PktParam)
    (ok : Bool) : Prop where
  same : ul.SameSession ul'
  ackCnt : ul'.ackCnt = ul.ackCnt
  ssThreshold : ul'.ssThreshold = ul.ssThreshold
  maxRetransmitSeq :
    ul'.maxRetransmitSeq = ul.maxRetransmitSeq
  rtt : ul'.rtt = ul.rtt
  seqs :
    sent.map (fun pp => pp.seq.toNat) =
      List.range' (ul.lastPktSent.toNat + 1) sent.length
  last : ul.lastPktSent.toNat + sent.length ≤ lastSeq
  window :
    ul.lastPktSent.toNat + sent.length ≤
      max ul.lastPktSent.toNat
        (ul.lastPktAcked.toNat + ul.windowSize.toNat)
  counted :
    ul'.lastPktSent.toNat + (if ok then 0 else 1) =
      ul.lastPktSent.toNat + sent.length
  read : ok = true ↔ ∀ pp ∈ sent, ts pp.seq ≠ 0
  rto :
    ul'.rto = if sent = [] then ul.rto else getRto ul.rtt
  stamped :
    ∀ pp ∈ sent,
      ul'.seqTs pp.seq.toNat = ts pp.seq ∧
        ul'.seqTimeout pp.seq.toNat =
          if ts pp.seq = 0 then ul.seqTimeout pp.seq.toNat
          else ts pp.seq + getRto ul.rtt
  kept :
    ∀ k : Nat,
      (∀ pp ∈ sent, pp.seq.toNat ≠ k) →
        ul'.seqTs k = ul.seqTs k ∧
          ul'.seqTimeout k = ul.seqTimeout k

/- The numbers of the packets sent. -/
theorem Sends.mem_iff
    {ts : Word → Word}
    {ul ul' : Upload}
    {sent : List PktParam}
    {ok : Bool}
    (hSends : Sends ts ul ul' sent ok)
    (k : Nat) :
    (∃ pp ∈ sent, pp.seq.toNat = k) ↔
      ul.lastPktSent.toNat < k ∧
        k ≤ ul.lastPktSent.toNat + sent.length := by
  rw [← List.mem_map, hSends.seqs, List.mem_range'_1]
  omega

theorem Sends.nothing
    (ts : Word → Word)
    {ul : Upload}
    (hLast : ul.lastPktSent.toNat ≤ lastSeq) :
    Sends ts ul ul [] true where
  same := .refl ul
  ackCnt := rfl
  ssThreshold := rfl
  maxRetransmitSeq := rfl
  rtt := rfl
  seqs := rfl
  last := hLast
  window := Nat.le_max_left _ _
  counted := rfl
  read := by
    refine iff_of_true rfl ?_
    intro pp hMem
    cases hMem
  rto := (if_pos rfl).symm
  stamped := by
    intro pp hMem
    cases hMem
  kept := fun _ _ => ⟨rfl, rfl⟩

/- A window that is open has room for one more segment. -/
theorem room_of_open
    {ul : Upload}
    (hOpen :
      ¬ ul.lastPktAcked + ul.windowSize ≤ ul.lastPktSent) :
    ul.lastPktSent.toNat + 1 ≤
      ul.lastPktAcked.toNat + ul.windowSize.toNat := by
  rw [BitVec.le_def, BitVec.toNat_add] at hOpen
  have hMod :=
    Nat.mod_le
      (ul.lastPktAcked.toNat + ul.windowSize.toNat) (2 ^ 32)
  omega

/- A last segment whose time could not be read. -/
theorem Sends.failed
    {ts : Word → Word}
    {ul : Upload}
    (hOpen :
      ¬ ul.lastPktAcked + ul.windowSize ≤ ul.lastPktSent)
    (hTail : (ul.lastPktSent + 1).toNat ≤ lastSeq)
    (hSucc :
      (ul.lastPktSent + 1).toNat = ul.lastPktSent.toNat + 1)
    (hZero : ts (ul.lastPktSent + 1) = 0) :
    Sends ts ul
      (ul.recordSent (ul.lastPktSent + 1)
        (ts (ul.lastPktSent + 1)))
      [ul.segment (ul.lastPktSent + 1)] false where
  same := ⟨rfl, rfl, rfl, rfl, rfl, rfl, rfl, rfl⟩
  ackCnt := rfl
  ssThreshold := rfl
  maxRetransmitSeq := rfl
  rtt := rfl
  seqs := congrArg (fun n => [n]) hSucc
  last := hSucc ▸ hTail
  window :=
    Nat.le_trans (room_of_open hOpen) (Nat.le_max_right _ _)
  counted := rfl
  read := by
    refine iff_of_false Bool.false_ne_true ?_
    intro hAll
    exact hAll _ List.mem_cons_self hZero
  rto := (if_neg (List.cons_ne_nil _ _)).symm
  stamped := by
    intro pp hMem
    rw [List.mem_singleton.mp hMem]
    exact ⟨Function.update_self _ _ _, (if_pos hZero).symm⟩
  kept := by
    intro k hOther
    have hNe := hOther _ List.mem_cons_self
    exact ⟨Function.update_of_ne (Ne.symm hNe) _ _, rfl⟩

/- What one round records of the segment it sends. -/
theorem armTimer_self
    (ul : Upload)
    (seq now : Word) :
    let ul' := (ul.recordSent seq now).armTimer seq
    ul'.seqTs seq.toNat = now ∧
      ul'.seqTimeout seq.toNat = now + getRto ul.rtt := by
  simp [recordSent, armTimer]

theorem armTimer_of_ne
    (ul : Upload)
    (seq now : Word)
    {k : Nat}
    (hOther : k ≠ seq.toNat) :
    let ul' := (ul.recordSent seq now).armTimer seq
    ul'.seqTs k = ul.seqTs k ∧
      ul'.seqTimeout k = ul.seqTimeout k :=
  ⟨Function.update_of_ne hOther _ _,
    Function.update_of_ne hOther _ _⟩

/- One round of the loop, and what the rest of it does. -/
theorem Sends.cons
    {ts : Word → Word}
    {ul ul' : Upload}
    {sent : List PktParam}
    {ok : Bool}
    (hOpen :
      ¬ ul.lastPktAcked + ul.windowSize ≤ ul.lastPktSent)
    (hSucc :
      (ul.lastPktSent + 1).toNat = ul.lastPktSent.toNat + 1)
    (hReads : ts (ul.lastPktSent + 1) ≠ 0)
    (hRest :
      Sends ts
        ((ul.recordSent (ul.lastPktSent + 1)
          (ts (ul.lastPktSent + 1))).armTimer
            (ul.lastPktSent + 1)) ul' sent ok) :
    Sends ts ul ul'
      (ul.segment (ul.lastPktSent + 1) :: sent) ok := by
  have hRoom := room_of_open hOpen
  have hSeqs := hRest.seqs
  have hLast := hRest.last
  have hWindow := hRest.window
  have hCounted := hRest.counted
  have hRead := hRest.read
  have hStamped := hRest.stamped
  have hLater :
      ∀ pp ∈ sent,
        pp.seq.toNat ≠ (ul.lastPktSent + 1).toNat := by
    intro pp hMem
    have hPast := (hRest.mem_iff _).mp ⟨pp, hMem, rfl⟩
    simp only [armTimer] at hPast
    omega
  simp only [recordSent, armTimer, hSucc]
    at hSeqs hLast hWindow hCounted
  refine ⟨⟨hRest.same.hasIndex, hRest.same.pIndex,
      hRest.same.lastPktAcked, hRest.same.windowSize,
      hRest.same.timeoutCnt, hRest.same.data,
      hRest.same.status, hRest.same.finished⟩,
    hRest.ackCnt, hRest.ssThreshold, hRest.maxRetransmitSeq,
    hRest.rtt, ?_, ?_, ?_, ?_, ?_, ?_, ?_, ?_⟩
  · rw [List.map_cons, hSeqs, List.length_cons,
      List.range'_succ]
    exact congrArg (fun n => n :: _) hSucc
  · rw [List.length_cons]
    omega
  · rw [List.length_cons]
    omega
  · rw [List.length_cons]
    omega
  · rw [hRead, List.forall_mem_cons]
    exact (and_iff_right hReads).symm
  · rw [hRest.rto, if_neg (List.cons_ne_nil _ _)]
    split <;> rfl
  · intro pp hMem
    rcases List.mem_cons.mp hMem with rfl | hTail
    · have hKept := hRest.kept _ hLater
      have hSelf :=
        armTimer_self ul (ul.lastPktSent + 1)
          (ts (ul.lastPktSent + 1))
      refine ⟨hKept.1.trans hSelf.1, ?_⟩
      exact (hKept.2.trans hSelf.2).trans (if_neg hReads).symm
    · have hOld :=
        (armTimer_of_ne ul (ul.lastPktSent + 1)
          (ts (ul.lastPktSent + 1)) (hLater pp hTail)).2
      rw [(hStamped pp hTail).1, (hStamped pp hTail).2, hOld]
      exact ⟨rfl, rfl⟩
  · intro k hOut
    rw [List.forall_mem_cons] at hOut
    have hKept := hRest.kept k hOut.2
    have hOld :=
      armTimer_of_ne ul (ul.lastPktSent + 1)
        (ts (ul.lastPktSent + 1)) (Ne.symm hOut.1)
    exact ⟨hKept.1.trans hOld.1, hKept.2.trans hOld.2⟩

end Upload

theorem ulSendLoop_sends
    (ts : Word → Word)
    (k : Nat)
    {ul : Upload}
    (hLast : ul.lastPktSent.toNat ≤ lastSeq) :
    ul.Sends ts (ulSendLoop ts k ul).1
      (ulSendLoop ts k ul).2.1 (ulSendLoop ts k ul).2.2 := by
  induction k generalizing ul with
  | zero => exact .nothing ts hLast
  | succ k ih =>
      have hSucc := toNat_succ_of_le hLast
      simp only [ulSendLoop]
      split
      · exact .nothing ts hLast
      · rename_i hOpen
        split
        · exact .nothing ts hLast
        · rename_i hTail
          have hNext := Nat.le_of_not_lt hTail
          split
          · rename_i hZero
            exact .failed hOpen hNext hSucc hZero
          · rename_i hReads
            exact (ih hNext).cons hOpen hSucc hReads

/- `ul_send` counts what it sent unless the clock failed. -/
theorem ulSend_sends
    (ts : Word → Word)
    {ul : Upload}
    (hLast : ul.lastPktSent.toNat ≤ lastSeq) :
    ul.Sends ts (ulSend ts ul).1 (ulSend ts ul).2.1
        (ulSend ts ul).2.2 ∧
      (ulSend ts ul).1.maxPktSent =
        if (ulSend ts ul).2.2 then
          wordMax ul.maxPktSent (ulSend ts ul).1.lastPktSent
        else ul.maxPktSent := by
  have hMax := (ulSendLoop_spec ts sendFuel ul hLast).1
  have hLoop := ulSendLoop_sends ts sendFuel hLast
  unfold ulSend
  split
  · rename_i ul' sent hOut
    rw [hOut] at hLoop hMax
    exact ⟨hLoop, hMax⟩
  · rename_i ul' sent hOut
    rw [hOut] at hLoop hMax
    refine ⟨⟨⟨hLoop.same.hasIndex, hLoop.same.pIndex,
        hLoop.same.lastPktAcked, hLoop.same.windowSize,
        hLoop.same.timeoutCnt, hLoop.same.data,
        hLoop.same.status, hLoop.same.finished⟩,
      hLoop.ackCnt, hLoop.ssThreshold,
      hLoop.maxRetransmitSeq, hLoop.rtt, hLoop.seqs,
      hLoop.last, hLoop.window, hLoop.counted, hLoop.read,
      hLoop.rto, hLoop.stamped, hLoop.kept⟩, ?_⟩
    have hSame : ul'.maxPktSent = ul.maxPktSent := hMax
    rw [if_pos rfl, hSame]

namespace Upload

/- Sending with a working clock, as a whole. -/
structure SentOn
    (ts : Word → Word)
    (ul ul' : Upload)
    (sent : List PktParam) : Prop where
  same : ul.SameSession ul'
  ackCnt : ul'.ackCnt = ul.ackCnt
  ssThreshold : ul'.ssThreshold = ul.ssThreshold
  maxRetransmitSeq :
    ul'.maxRetransmitSeq = ul.maxRetransmitSeq
  rtt : ul'.rtt = ul.rtt
  le : ul.lastPktSent.toNat ≤ ul'.lastPktSent.toNat
  last : ul'.lastPktSent.toNat ≤ lastSeq
  window :
    ul'.lastPktSent.toNat ≤
      max ul.lastPktSent.toNat
        (ul.lastPktAcked.toNat + ul.windowSize.toNat)
  segments :
    ∀ seq : Word,
      (∃ pp ∈ sent, pp.seq = seq) ↔
        ul.lastPktSent.toNat < seq.toNat ∧
          seq.toNat ≤ ul'.lastPktSent.toNat
  rto :
    ul'.rto = if sent = [] then ul.rto else getRto ul.rtt
  fresh :
    ∀ seq : Word,
      ul.lastPktSent.toNat < seq.toNat →
      seq.toNat ≤ ul'.lastPktSent.toNat →
        ul'.seqTs seq.toNat = ts seq ∧
          ul'.seqTimeout seq.toNat = ts seq + getRto ul.rtt
  kept :
    ∀ k : Nat,
      (k ≤ ul.lastPktSent.toNat ∨
        ul'.lastPktSent.toNat < k) →
        ul'.seqTs k = ul.seqTs k ∧
          ul'.seqTimeout k = ul.seqTimeout k

/- With a working clock every packet sent is counted. -/
theorem Sends.sentOn
    {ts : Word → Word}
    (hClock : ∀ seq, ts seq ≠ 0)
    {ul ul' : Upload}
    {sent : List PktParam}
    {ok : Bool}
    (hSends : Sends ts ul ul' sent ok) :
    ul.SentOn ts ul' sent ∧ ok = true := by
  have hOk : ok = true :=
    hSends.read.mpr (fun pp _ => hClock pp.seq)
  have hCounted := hSends.counted
  have hLast := hSends.last
  have hWindow := hSends.window
  have hRange (seq : Word) :
      (∃ pp ∈ sent, pp.seq = seq) ↔
        ul.lastPktSent.toNat < seq.toNat ∧
          seq.toNat ≤ ul'.lastPktSent.toNat := by
    simp only [BitVec.toNat_eq, hSends.mem_iff]
    rw [if_pos hOk] at hCounted
    omega
  rw [if_pos hOk] at hCounted
  refine ⟨⟨hSends.same, hSends.ackCnt, hSends.ssThreshold,
    hSends.maxRetransmitSeq, hSends.rtt, by omega, by omega,
    by omega, hRange, hSends.rto, ?_, ?_⟩, hOk⟩
  · intro seq hLow hHigh
    rcases (hRange seq).mpr ⟨hLow, hHigh⟩ with
      ⟨pp, hMem, rfl⟩
    rcases hSends.stamped pp hMem with ⟨hTs, hTimeout⟩
    rw [if_neg (hClock pp.seq)] at hTimeout
    exact ⟨hTs, hTimeout⟩
  · intro k hOut
    apply hSends.kept
    rintro pp hMem rfl
    have hIn := (hRange pp.seq).mp ⟨pp, hMem, rfl⟩
    omega

end Upload

/- `ul_send` with a working clock. -/
theorem ulSend_sentOn
    {ts : Word → Word}
    (hClock : ∀ seq, ts seq ≠ 0)
    {ul : Upload}
    (hLast : ul.lastPktSent.toNat ≤ lastSeq) :
    ul.SentOn ts (ulSend ts ul).1 (ulSend ts ul).2.1 ∧
      (ulSend ts ul).1.maxPktSent =
        wordMax ul.maxPktSent (ulSend ts ul).1.lastPktSent ∧
      (ulSend ts ul).2.2 = true := by
  rcases ulSend_sends ts hLast with ⟨hSends, hMax⟩
  rcases hSends.sentOn hClock with ⟨hOn, hOk⟩
  rw [if_pos hOk] at hMax
  exact ⟨hOn, hMax, hOk⟩

end BtPeer

------------------------------------------------------------
-- Before Sending
------------------------------------------------------------

namespace BtPeer

namespace UlEvent

/-
  The upload in which the event calls `ul_send`, or in which
  it ends when the flag is false.
-/
def prepare
    (e : UlEvent)
    (ul : Upload) : Upload × Bool :=
  match e with
  | .ack now _ num => (ulHandleAck now ul num, true)
  | .check now _ =>
      if ul.finished then (ul, false)
      else
        let ul := growCa now ul
        if timerExpired now ul then
          (ulLoss
            { ul with
              rtt :=
                wordMin (ul.rtt * 2)
                  (BitVec.ofNat 32 (defaultTimeout / 4))
              timeoutCnt := ul.timeoutCnt + 1 }, true)
        else (ul, false)

/- Every event prepares the upload and may then send. -/
theorem apply_eq
    (e : UlEvent)
    (ul : Upload) :
    e.apply ul =
      if (e.prepare ul).2 then
        ((ulSend e.ts (e.prepare ul).1).1,
          (ulSend e.ts (e.prepare ul).1).2.1)
      else ((e.prepare ul).1, []) := by
  cases e with
  | ack now ts num =>
      simp only [apply, prepare, UlEvent.ts]
      generalize ulSend ts (ulHandleAck now ul num) = out
      rcases out with ⟨ul', sent, ok⟩
      rfl
  | check now ts =>
      simp only [apply, prepare, UlEvent.ts, ulCheckTimeout]
      split
      · rfl
      · split
        · generalize ulSend ts _ = out
          rcases out with ⟨ul', sent, ok⟩
          rfl
        · rfl

end UlEvent

end BtPeer

------------------------------------------------------------
-- Paced Uploads
------------------------------------------------------------

namespace BtPeer

namespace Upload

/-
  The window stays near the threshold except in the two
  congestion avoidance states, which acknowledgements leave
  as they are.
-/
def SmallWindow (ul : Upload) : Prop :=
  match ul.status with
  | .slowStart =>
      1 ≤ ul.windowSize.toNat ∧
        ul.windowSize.toNat ≤ ul.ssThreshold.toNat + 1
  | .fastRetransmit => ul.windowSize.toNat = 1
  | .fastRetransmitSs =>
      1 ≤ ul.windowSize.toNat ∧
        ul.windowSize.toNat ≤ ul.ssThreshold.toNat
  | .congestionAvoidance => True
  | .fastRetransmitCa => True

/- The threshold is in range, and the window is as above. -/
structure Tuned (ul : Upload) : Prop where
  low : 2 ≤ ul.ssThreshold.toNat
  high : ul.ssThreshold.toNat ≤ 2 ^ 31
  window : ul.SmallWindow

/- The counters are in order, and the window is as above. -/
structure Paced (ul : Upload) : Prop where
  acked : ul.lastPktAcked.toNat ≤ ul.lastPktSent.toNat
  sent : ul.lastPktSent.toNat ≤ ul.maxPktSent.toNat
  max : ul.maxPktSent.toNat ≤ lastSeq
  finished :
    ul.finished = true ↔ lastSeq ≤ ul.lastPktAcked.toNat
  threshLow : 2 ≤ ul.ssThreshold.toNat
  threshHigh : ul.ssThreshold.toNat ≤ 2 ^ 31
  window : ul.SmallWindow

theorem Paced.tuned
    {ul : Upload}
    (hPaced : ul.Paced) :
    ul.Tuned :=
  ⟨hPaced.threshLow, hPaced.threshHigh, hPaced.window⟩

/- What was sent fits the window, which is never closed. -/
structure InWindow (ul : Upload) : Prop where
  sent :
    ul.lastPktSent.toNat ≤
      ul.lastPktAcked.toNat + ul.windowSize.toNat
  opened : 1 ≤ ul.windowSize.toNat

/-
  Only the estimates, the duplicate counts and the count of
  timeouts differ.
-/
structure Sampled (ul ul' : Upload) : Prop where
  lastPktAcked : ul'.lastPktAcked = ul.lastPktAcked
  lastPktSent : ul'.lastPktSent = ul.lastPktSent
  maxPktSent : ul'.maxPktSent = ul.maxPktSent
  maxRetransmitSeq :
    ul'.maxRetransmitSeq = ul.maxRetransmitSeq
  windowSize : ul'.windowSize = ul.windowSize
  ssThreshold : ul'.ssThreshold = ul.ssThreshold
  status : ul'.status = ul.status
  finished : ul'.finished = ul.finished
  seqTs : ul'.seqTs = ul.seqTs
  seqTimeout : ul'.seqTimeout = ul.seqTimeout

theorem Sampled.refl
    (ul : Upload) :
    Sampled ul ul :=
  ⟨rfl, rfl, rfl, rfl, rfl, rfl, rfl, rfl, rfl, rfl⟩

theorem Sampled.trans
    {ul ul' ul'' : Upload}
    (h : Sampled ul ul')
    (h' : Sampled ul' ul'') :
    Sampled ul ul'' where
  lastPktAcked := h'.lastPktAcked.trans h.lastPktAcked
  lastPktSent := h'.lastPktSent.trans h.lastPktSent
  maxPktSent := h'.maxPktSent.trans h.maxPktSent
  maxRetransmitSeq :=
    h'.maxRetransmitSeq.trans h.maxRetransmitSeq
  windowSize := h'.windowSize.trans h.windowSize
  ssThreshold := h'.ssThreshold.trans h.ssThreshold
  status := h'.status.trans h.status
  finished := h'.finished.trans h.finished
  seqTs := h'.seqTs.trans h.seqTs
  seqTimeout := h'.seqTimeout.trans h.seqTimeout

theorem Tuned.of_sampled
    {ul ul' : Upload}
    (hTuned : ul.Tuned)
    (hSame : Sampled ul ul') :
    ul'.Tuned := by
  cases hTuned
  constructor <;>
    simp only [SmallWindow, hSame.windowSize,
      hSame.ssThreshold, hSame.status] <;>
    assumption

theorem Paced.of_sampled
    {ul ul' : Upload}
    (hPaced : ul.Paced)
    (hSame : Sampled ul ul') :
    ul'.Paced := by
  cases hPaced
  constructor <;>
    simp only [SmallWindow, hSame.lastPktAcked,
      hSame.lastPktSent, hSame.maxPktSent, hSame.windowSize,
      hSame.ssThreshold, hSame.status, hSame.finished] <;>
    assumption

theorem InWindow.of_sampled
    {ul ul' : Upload}
    (hWindow : ul.InWindow)
    (hSame : Sampled ul ul') :
    ul'.InWindow := by
  cases hWindow
  constructor <;>
    simp only [hSame.lastPktAcked, hSame.lastPktSent,
      hSame.windowSize] <;>
    assumption

end Upload

theorem sampleRtt_sampled
    (now : Word)
    (ul : Upload)
    (ack : Word) :
    ul.Sampled (sampleRtt now ul ack) := by
  unfold sampleRtt
  split <;>
    exact ⟨rfl, rfl, rfl, rfl, rfl, rfl, rfl, rfl, rfl, rfl⟩

theorem allowDup_sampled
    (ul : Upload)
    (ack : Word) :
    ul.Sampled (allowDup ul ack) := by
  unfold allowDup
  split <;>
    exact ⟨rfl, rfl, rfl, rfl, rfl, rfl, rfl, rfl, rfl, rfl⟩

theorem setAckCnt_sampled
    (ul : Upload)
    (ackCnt : Nat → Int) :
    ul.Sampled { ul with ackCnt := ackCnt } :=
  ⟨rfl, rfl, rfl, rfl, rfl, rfl, rfl, rfl, rfl, rfl⟩

/-
  What `ul_handle_ack` can do: nothing but sampling, a loss,
  or the acknowledgement of something new.
-/
theorem ulHandleAck_cases
    (now : Word)
    (ul : Upload)
    (ack : Word) :
    ∃ ul',
      ul.Sampled ul' ∧
        (ulHandleAck now ul ack = ul' ∨
          (ul.finished = false ∧
            ulHandleAck now ul ack = ulLoss ul') ∨
          (ul.finished = false ∧ ul.lastPktAcked < ack ∧
            ack ≤ ul.maxPktSent ∧
            ulHandleAck now ul ack = newAck ul' ack)) := by
  unfold ulHandleAck
  split
  · exact ⟨ul, .refl ul, Or.inl rfl⟩
  · rename_i hOpen
    rw [Bool.not_eq_true] at hOpen
    split
    · exact ⟨{ ul with timeoutCnt := 0 },
        ⟨rfl, rfl, rfl, rfl, rfl, rfl, rfl, rfl, rfl, rfl⟩,
        Or.inl rfl⟩
    · split
      · exact ⟨ul, .refl ul, Or.inl rfl⟩
      · rename_i hValid
        have hMax : ack ≤ ul.maxPktSent :=
          BitVec.not_lt.mp (fun h => hValid (Or.inl h))
        have hSame :
            ul.Sampled (allowDup (sampleRtt now ul ack) ack) :=
          (sampleRtt_sampled now ul ack).trans
            (allowDup_sampled _ ack)
        -- `newAck` does nothing for a duplicate
        have hNew :
            ∀ ul',
              ul.Sampled ul' →
                ∃ ul'',
                  ul.Sampled ul'' ∧
                    (newAck ul' ack = ul'' ∨
                      (ul.finished = false ∧
                        newAck ul' ack = ulLoss ul'') ∨
                      (ul.finished = false ∧
                        ul.lastPktAcked < ack ∧
                        ack ≤ ul.maxPktSent ∧
                        newAck ul' ack = newAck ul'' ack)) := by
          intro ul' hSampled
          refine ⟨ul', hSampled, ?_⟩
          by_cases hOld : ack ≤ ul'.lastPktAcked
          · left
            unfold newAck
            exact if_pos hOld
          · refine Or.inr (Or.inr ⟨hOpen, ?_, hMax, rfl⟩)
            rw [hSampled.lastPktAcked] at hOld
            exact BitVec.not_le.mp hOld
        dsimp only
        split
        · exact hNew _ hSame
        · split
          · exact ⟨_, hSame.trans (setAckCnt_sampled _ _),
              Or.inr (Or.inl ⟨hOpen, rfl⟩)⟩
          · exact hNew _ (hSame.trans (setAckCnt_sampled _ _))

theorem ulLoss_tuned
    (ul : Upload) :
    (ulLoss ul).Tuned := by
  have hHigh := ul.windowSize.isLt
  refine ⟨?_, ?_, rfl⟩
  · simp only [ulLoss, toNat_wordMax]
    exact Nat.le_max_right _ _
  · have hTwo : (2 : Word).toNat = 2 := rfl
    simp only [ulLoss, toNat_wordMax, BitVec.toNat_udiv, hTwo]
    omega

theorem ulLoss_paced
    {ul : Upload}
    (hPaced : ul.Paced) :
    (ulLoss ul).Paced := by
  have hTuned := ulLoss_tuned ul
  exact ⟨Nat.le_refl _,
    Nat.le_trans hPaced.acked hPaced.sent, hPaced.max,
    hPaced.finished, hTuned.low, hTuned.high, hTuned.window⟩

theorem ulLoss_inWindow
    (ul : Upload) :
    (ulLoss ul).InWindow :=
  ⟨Nat.le_add_right _ _, Nat.le_refl _⟩

/- The window after a new acknowledgement. -/
theorem ackStatus_window
    {ul : Upload}
    {ack : Word}
    (hTuned : ul.Tuned)
    (hNew : ul.lastPktAcked < ack)
    (hLast : ack.toNat ≤ lastSeq) :
    (ackStatus ul ack).SmallWindow ∧
      (ackStatus ul ack).ssThreshold = ul.ssThreshold ∧
      ul.windowSize.toNat ≤
        (ackStatus ul ack).windowSize.toNat := by
  have hLow := hTuned.low
  have hHigh := hTuned.high
  have hWindow := hTuned.window
  rw [BitVec.lt_def] at hNew
  simp only [lastSeq_eq] at hLast
  cases hStatus : ul.status with
  | slowStart =>
      simp only [Upload.SmallWindow, hStatus] at hWindow
      have hGrown :
          (ul.windowSize + (ack - ul.lastPktAcked)).toNat =
            ul.windowSize.toNat +
              (ack.toNat - ul.lastPktAcked.toNat) := by
        bv_omega
      simp only [ackStatus, hStatus, Upload.SmallWindow]
      refine ⟨?_, trivial, by omega⟩
      by_cases hAbove :
          ul.ssThreshold <
            ul.windowSize + (ack - ul.lastPktAcked)
      · rw [if_pos hAbove]
        trivial
      · rw [if_neg hAbove]
        rw [BitVec.lt_def] at hAbove
        exact ⟨by omega, by omega⟩
  | congestionAvoidance =>
      simp only [ackStatus, hStatus, Upload.SmallWindow]
      exact ⟨trivial, trivial, Nat.le_refl _⟩
  | fastRetransmit =>
      simp only [Upload.SmallWindow, hStatus] at hWindow
      have hGrown :
          (ul.windowSize + 1).toNat =
            ul.windowSize.toNat + 1 := by
        bv_omega
      simp only [ackStatus, hStatus]
      split
      · simp only [Upload.SmallWindow]
        exact ⟨⟨by omega, by omega⟩, trivial, by omega⟩
      · simp only [Upload.SmallWindow, hStatus]
        exact ⟨hWindow, trivial, Nat.le_refl _⟩
  | fastRetransmitSs =>
      simp only [Upload.SmallWindow, hStatus] at hWindow
      have hGrown :
          (ul.windowSize + 1).toNat =
            ul.windowSize.toNat + 1 := by
        bv_omega
      simp only [ackStatus, hStatus, Upload.SmallWindow]
      refine ⟨?_, trivial, by omega⟩
      by_cases hEnd : ul.maxRetransmitSeq ≤ ack
      · rw [if_pos hEnd]
        exact ⟨by omega, by omega⟩
      · rw [if_neg hEnd]
        by_cases hAbove : ul.ssThreshold < ul.windowSize + 1
        · rw [if_pos hAbove]
          trivial
        · rw [if_neg hAbove]
          rw [BitVec.lt_def] at hAbove
          exact ⟨by omega, by omega⟩
  | fastRetransmitCa =>
      simp only [ackStatus, hStatus]
      split
      · simp only [Upload.SmallWindow]
        exact ⟨trivial, trivial, Nat.le_refl _⟩
      · simp only [Upload.SmallWindow, hStatus]
        exact ⟨trivial, trivial, Nat.le_refl _⟩

end BtPeer

------------------------------------------------------------
-- Every Event Keeps The Pace
------------------------------------------------------------

namespace BtPeer

theorem newAck_eq
    {ul : Upload}
    {ack : Word}
    (hNew : ul.lastPktAcked < ack) :
    newAck ul ack =
      { ackStatus ul ack with
        lastPktSent :=
          wordMax (ackStatus ul ack).lastPktSent ack
        timeoutCnt := 0
        lastPktAcked := ack
        finished :=
          (ackStatus ul ack).finished ||
            decide (lastSeq ≤ ack.toNat) } := by
  unfold newAck
  exact if_neg (BitVec.not_le.mpr hNew)

theorem newAck_tuned
    {ul : Upload}
    {ack : Word}
    (hTuned : ul.Tuned)
    (hNew : ul.lastPktAcked < ack)
    (hLast : ack.toNat ≤ lastSeq) :
    (newAck ul ack).Tuned := by
  rcases ackStatus_window hTuned hNew hLast with
    ⟨hSmall, hThresh, _⟩
  rw [newAck_eq hNew]
  exact ⟨hThresh ▸ hTuned.low, hThresh ▸ hTuned.high, hSmall⟩

theorem newAck_paced
    {ul : Upload}
    {ack : Word}
    (hPaced : ul.Paced)
    (hOpen : ul.finished = false)
    (hNew : ul.lastPktAcked < ack)
    (hMax : ack ≤ ul.maxPktSent) :
    (newAck ul ack).Paced := by
  have hSame := ackStatus_sameCounters ul ack
  have hTuned :=
    newAck_tuned hPaced.tuned hNew
      (Nat.le_trans hMax hPaced.max)
  have hSent := hPaced.sent
  rw [newAck_eq hNew] at hTuned ⊢
  refine ⟨?_, ?_, ?_, ?_, hTuned.low, hTuned.high,
    hTuned.window⟩
  · rw [toNat_wordMax]
    exact Nat.le_max_right _ _
  · rw [toNat_wordMax, hSame.lastPktSent, hSame.maxPktSent]
    exact Nat.max_le.mpr ⟨hSent, hMax⟩
  · rw [hSame.maxPktSent]
    exact hPaced.max
  · rw [hSame.finished, hOpen, Bool.false_or,
      decide_eq_true_eq]

theorem newAck_inWindow
    {ul : Upload}
    {ack : Word}
    (hPaced : ul.Paced)
    (hWindow : ul.InWindow)
    (hNew : ul.lastPktAcked < ack)
    (hMax : ack ≤ ul.maxPktSent) :
    (newAck ul ack).InWindow := by
  have hSame := ackStatus_sameCounters ul ack
  have hGrown :=
    (ackStatus_window hPaced.tuned hNew
      (Nat.le_trans hMax hPaced.max)).2.2
  have hSent := hWindow.sent
  have hOpened := hWindow.opened
  rw [BitVec.lt_def] at hNew
  rw [newAck_eq hNew]
  refine ⟨?_, Nat.le_trans hOpened hGrown⟩
  rw [toNat_wordMax, hSame.lastPktSent]
  dsimp only
  omega

namespace Upload

/- The window grows by one at this check. -/
def GrowsCa
    (now : Word)
    (ul : Upload) : Prop :=
  (ul.status = .congestionAvoidance ∨
      ul.status = .fastRetransmitCa) ∧
    (if ul.caTs = 0 then now + ul.rtt else ul.caTs) < now

instance
    (now : Word)
    (ul : Upload) :
    Decidable (ul.GrowsCa now) :=
  inferInstanceAs (Decidable (_ ∧ _))

end Upload

/- The window growth touches the window and `ca_ts` only. -/
theorem growCa_eq
    (now : Word)
    (ul : Upload) :
    ∃ caTs,
      growCa now ul =
        { ul with
          windowSize :=
            if ul.GrowsCa now then ul.windowSize + 1
            else ul.windowSize
          caTs := caTs } := by
  by_cases hGrows : ul.GrowsCa now
  · refine ⟨now + ul.rtt, ?_⟩
    rw [if_pos hGrows]
    rcases hGrows with ⟨hStatus | hStatus, hLate⟩ <;>
      simp only [growCa, hStatus, if_pos hLate]
  · rw [if_neg hGrows]
    by_cases hCa :
        ul.status = .congestionAvoidance ∨
          ul.status = .fastRetransmitCa
    · refine
        ⟨if ul.caTs = 0 then now + ul.rtt else ul.caTs, ?_⟩
      have hEarly :
          ¬ (if ul.caTs = 0 then now + ul.rtt
            else ul.caTs) < now :=
        fun hLate => hGrows ⟨hCa, hLate⟩
      rcases hCa with hStatus | hStatus <;>
        simp only [growCa, hStatus, if_neg hEarly]
    · refine ⟨ul.caTs, ?_⟩
      unfold growCa
      split
      · exact absurd (Or.inl ‹_›) hCa
      · exact absurd (Or.inr ‹_›) hCa
      · rfl

theorem growCa_tuned
    (now : Word)
    {ul : Upload}
    (hTuned : ul.Tuned) :
    (growCa now ul).Tuned := by
  rcases growCa_eq now ul with ⟨caTs, hEq⟩
  have hWindow := hTuned.window
  rw [hEq]
  refine ⟨hTuned.low, hTuned.high, ?_⟩
  by_cases hGrows : ul.GrowsCa now
  · rcases hGrows.1 with hStatus | hStatus <;>
      simp only [Upload.SmallWindow, hStatus]
  · rw [if_neg hGrows]
    exact hWindow

theorem growCa_paced
    (now : Word)
    {ul : Upload}
    (hPaced : ul.Paced) :
    (growCa now ul).Paced := by
  have hTuned := growCa_tuned now hPaced.tuned
  rcases growCa_eq now ul with ⟨caTs, hEq⟩
  rw [hEq] at hTuned ⊢
  exact ⟨hPaced.acked, hPaced.sent, hPaced.max,
    hPaced.finished, hTuned.low, hTuned.high, hTuned.window⟩

theorem growCa_inWindow
    {now : Word}
    {ul : Upload}
    (hWindow : ul.InWindow)
    (hRoom :
      ul.GrowsCa now →
        ul.windowSize.toNat + 1 < 2 ^ 32) :
    (growCa now ul).InWindow := by
  rcases growCa_eq now ul with ⟨caTs, hEq⟩
  have hSent := hWindow.sent
  have hOpened := hWindow.opened
  rw [hEq]
  by_cases hGrows : ul.GrowsCa now
  · have hLess := hRoom hGrows
    have hGrown :
        (ul.windowSize + 1).toNat =
          ul.windowSize.toNat + 1 := by
      bv_omega
    rw [if_pos hGrows]
    constructor <;> dsimp only <;> omega
  · rw [if_neg hGrows]
    exact ⟨hSent, hOpened⟩

theorem growCa_timerExpired
    (now now' : Word)
    (ul : Upload) :
    timerExpired now (growCa now' ul) =
      timerExpired now ul := by
  rcases growCa_eq now' ul with ⟨caTs, hEq⟩
  rw [hEq]
  rfl

namespace UlEvent

/-
  A check whose timer has not expired lets the window grow
  beyond the largest `uint32_t`.
-/
def WrapsWindow
    (ul : Upload) : UlEvent → Prop
| .ack _ _ _ => False
| .check now _ =>
    ul.finished = false ∧ ul.GrowsCa now ∧
      timerExpired now ul = false ∧
        ul.windowSize.toNat + 1 = 2 ^ 32

/-
  What sampling, a loss, a new acknowledgement and the growth
  of the window preserve is preserved up to the sending.
-/
theorem prepare_invariant
    (inv : Upload → Prop)
    (hSampled : ∀ ul ul', inv ul → ul.Sampled ul' → inv ul')
    (hLoss : ∀ ul, inv ul → inv (ulLoss ul))
    (hAck :
      ∀ ul ack, inv ul →
        ul.finished = false →
        ul.lastPktAcked < ack →
        ack ≤ ul.maxPktSent →
          inv (newAck ul ack))
    (hGrow : ∀ now ul, inv ul → inv (growCa now ul))
    (e : UlEvent)
    {ul : Upload}
    (hInv : inv ul) :
    inv (e.prepare ul).1 := by
  cases e with
  | ack now ts num =>
      rcases ulHandleAck_cases now ul num with
        ⟨ul', hSame, hOut⟩
      have hInv' := hSampled ul ul' hInv hSame
      simp only [prepare]
      rcases hOut with hOut | ⟨_, hOut⟩ |
        ⟨hOpen, hNew, hMax, hOut⟩
      · rw [hOut]
        exact hInv'
      · rw [hOut]
        exact hLoss ul' hInv'
      · rw [hOut]
        refine hAck ul' num hInv' ?_ ?_ ?_
        · exact hSame.finished.trans hOpen
        · rw [hSame.lastPktAcked]
          exact hNew
        · rw [hSame.maxPktSent]
          exact hMax
  | check now ts =>
      have hGrown := hGrow now ul hInv
      simp only [prepare]
      split
      · exact hInv
      · split
        · refine hLoss _ (hSampled _ _ hGrown ?_)
          exact
            ⟨rfl, rfl, rfl, rfl, rfl, rfl, rfl, rfl, rfl, rfl⟩
        · exact hGrown

theorem prepare_paced
    (e : UlEvent)
    {ul : Upload}
    (hPaced : ul.Paced) :
    (e.prepare ul).1.Paced :=
  prepare_invariant Upload.Paced
    (fun _ _ hPaced hSame => hPaced.of_sampled hSame)
    (fun _ hPaced => ulLoss_paced hPaced)
    (fun _ _ hPaced hOpen hNew hMax =>
      newAck_paced hPaced hOpen hNew hMax)
    (fun now _ hPaced => growCa_paced now hPaced) e hPaced

theorem prepare_inWindow
    {e : UlEvent}
    {ul : Upload}
    (hPaced : ul.Paced)
    (hWindow : ul.InWindow)
    (hRoom : ¬ e.WrapsWindow ul) :
    (e.prepare ul).1.InWindow := by
  cases e with
  | ack now ts num =>
      rcases ulHandleAck_cases now ul num with
        ⟨ul', hSame, hOut⟩
      have hPaced' := hPaced.of_sampled hSame
      have hWindow' := hWindow.of_sampled hSame
      simp only [prepare]
      rcases hOut with hOut | ⟨_, hOut⟩ |
        ⟨hOpen, hNew, hMax, hOut⟩
      · rw [hOut]
        exact hWindow'
      · rw [hOut]
        exact ulLoss_inWindow ul'
      · rw [hOut]
        refine newAck_inWindow hPaced' hWindow' ?_ ?_
        · rw [hSame.lastPktAcked]
          exact hNew
        · rw [hSame.maxPktSent]
          exact hMax
  | check now ts =>
      simp only [prepare, growCa_timerExpired]
      by_cases hDone : ul.finished = true
      · rw [if_pos hDone]
        exact hWindow
      · rw [if_neg hDone]
        by_cases hLate : timerExpired now ul = true
        · rw [if_pos hLate]
          exact ulLoss_inWindow _
        · rw [if_neg hLate]
          refine growCa_inWindow hWindow ?_
          intro hGrows
          rw [Bool.not_eq_true] at hDone hLate
          have hNot :
              ul.windowSize.toNat + 1 ≠ 2 ^ 32 :=
            fun hFull => hRoom ⟨hDone, hGrows, hLate, hFull⟩
          have hHigh := ul.windowSize.isLt
          omega

end UlEvent

/- Sending keeps the pace. -/
theorem ulSend_paced
    {ts : Word → Word}
    (hClock : ∀ seq, ts seq ≠ 0)
    {ul : Upload}
    (hPaced : ul.Paced) :
    (ulSend ts ul).1.Paced := by
  have hAcked := hPaced.acked
  have hSent := hPaced.sent
  have hMax := hPaced.max
  have hWindow := hPaced.window
  rcases ulSend_sentOn hClock (Nat.le_trans hSent hMax) with
    ⟨hOn, hMaxNew, _⟩
  have hLe := hOn.le
  have hLast := hOn.last
  refine ⟨?_, ?_, ?_, ?_, ?_, ?_, ?_⟩
  · rw [hOn.same.lastPktAcked]
    exact Nat.le_trans hAcked hLe
  · rw [hMaxNew, toNat_wordMax]
    exact Nat.le_max_right _ _
  · rw [hMaxNew, toNat_wordMax]
    exact Nat.max_le.mpr ⟨hMax, hLast⟩
  · rw [hOn.same.finished, hOn.same.lastPktAcked]
    exact hPaced.finished
  · rw [hOn.ssThreshold]
    exact hPaced.threshLow
  · rw [hOn.ssThreshold]
    exact hPaced.threshHigh
  · simp only [Upload.SmallWindow, hOn.same.status,
      hOn.same.windowSize, hOn.ssThreshold]
    exact hWindow

theorem ulSend_inWindow
    {ts : Word → Word}
    (hClock : ∀ seq, ts seq ≠ 0)
    {ul : Upload}
    (hLast : ul.lastPktSent.toNat ≤ lastSeq)
    (hWindow : ul.InWindow) :
    (ulSend ts ul).1.InWindow := by
  have hOn := (ulSend_sentOn hClock hLast).1
  have hSent := hWindow.sent
  have hNew := hOn.window
  refine ⟨?_, ?_⟩
  · rw [hOn.same.lastPktAcked, hOn.same.windowSize]
    omega
  · rw [hOn.same.windowSize]
    exact hWindow.opened

theorem UlEvent.apply_paced
    {e : UlEvent}
    (hClock : e.ClockReads)
    {ul : Upload}
    (hPaced : ul.Paced) :
    (e.apply ul).1.Paced := by
  have hReady := e.prepare_paced hPaced
  rw [e.apply_eq]
  split
  · exact ulSend_paced hClock.ts hReady
  · exact hReady

theorem UlEvent.apply_inWindow
    {e : UlEvent}
    (hClock : e.ClockReads)
    {ul : Upload}
    (hPaced : ul.Paced)
    (hWindow : ul.InWindow)
    (hRoom : ¬ e.WrapsWindow ul) :
    (e.apply ul).1.InWindow := by
  have hReady := e.prepare_paced hPaced
  have hReadyWindow := prepare_inWindow hPaced hWindow hRoom
  rw [e.apply_eq]
  split
  · exact ulSend_inWindow hClock.ts
      (Nat.le_trans hReady.sent hReady.max) hReadyWindow
  · exact hReadyWindow

end BtPeer

------------------------------------------------------------
-- Recorded Times
------------------------------------------------------------

namespace BtPeer

/-
  Every segment up to `max_pkt_sent` is in the log, and the
  upload holds the time and the timer of its last
  transmission, which satisfies `P`.
-/
def UlRun.Booked
    (P : Transmission → Prop)
    (r : UlRun) : Prop :=
  ∀ k,
    0 < k →
    k ≤ r.ul.maxPktSent.toNat →
      ∃ t,
        lastSent r.log k = some t ∧
          r.ul.seqTs k = t.time ∧
          r.ul.seqTimeout k = t.time + t.rto ∧ P t

theorem ulSend_booked
    {P : Transmission → Prop}
    {ts : Word → Word}
    (hClock : ∀ seq, ts seq ≠ 0)
    {ul : Upload}
    {log : List Transmission}
    (hPaced : ul.Paced)
    (hBooked : UlRun.Booked P ⟨ul, log⟩)
    (hNew :
      ∀ t ∈ transmissions ts (ulSend ts ul).1.rto
        (ulSend ts ul).2.1, P t) :
    UlRun.Booked P
      ⟨(ulSend ts ul).1,
        log ++ transmissions ts (ulSend ts ul).1.rto
          (ulSend ts ul).2.1⟩ := by
  rcases ulSend_sentOn hClock
      (Nat.le_trans hPaced.sent hPaced.max) with
    ⟨hOn, hMax, _⟩
  have hSent := hPaced.sent
  intro k hPos hLe
  simp only [hMax, toNat_wordMax] at hLe
  simp only [lastSent_append]
  by_cases hFresh :
      ul.lastPktSent.toNat < k ∧
        k ≤ (ulSend ts ul).1.lastPktSent.toNat
  · rcases hFresh with ⟨hLow, hHigh⟩
    have hWord : (BitVec.ofNat 32 k).toNat = k := by
      rw [BitVec.toNat_ofNat]
      exact Nat.mod_eq_of_lt
        (Nat.lt_of_le_of_lt hHigh (BitVec.isLt _))
    rw [← hWord] at hLow hHigh ⊢
    rcases (hOn.segments (BitVec.ofNat 32 k)).mpr
        ⟨hLow, hHigh⟩ with ⟨pp, hMem, hSeq⟩
    have hFound :=
      @lastSent_transmissions ts (ulSend ts ul).1.rto
        (ulSend ts ul).2.1 _ ⟨pp, hMem, hSeq⟩
    rcases hOn.fresh _ hLow hHigh with ⟨hTs, hTimeout⟩
    refine ⟨_, by rw [hFound, Option.some_or], hTs, ?_, ?_⟩
    · rw [hTimeout, hOn.rto,
        if_neg (List.ne_nil_of_mem hMem)]
    · apply hNew
      exact List.mem_map.mpr ⟨pp, hMem, by rw [hSeq]⟩
  · have hOld : k ≤ ul.maxPktSent.toNat := by omega
    rcases hBooked k hPos hOld with
      ⟨t, hLast, hTs, hTimeout, hP⟩
    have hKept := hOn.kept k (by omega)
    refine ⟨t, ?_, hKept.1.trans hTs,
      hKept.2.trans hTimeout, hP⟩
    rw [lastSent_transmissions_none, Option.none_or]
    · exact hLast
    · rintro pp hMem rfl
      exact hFresh ((hOn.segments pp.seq).mp ⟨pp, hMem, rfl⟩)

theorem ackStatus_timers
    (ul : Upload)
    (ack : Word) :
    (ackStatus ul ack).seqTs = ul.seqTs ∧
      (ackStatus ul ack).seqTimeout = ul.seqTimeout := by
  unfold ackStatus
  split
  case h_3 => split <;> exact ⟨rfl, rfl⟩
  case h_5 => split <;> exact ⟨rfl, rfl⟩
  all_goals exact ⟨rfl, rfl⟩

/- Nothing is recorded before sending. -/
theorem UlEvent.prepare_timers
    (e : UlEvent)
    (ul : Upload) :
    (e.prepare ul).1.seqTs = ul.seqTs ∧
      (e.prepare ul).1.seqTimeout = ul.seqTimeout ∧
      (e.prepare ul).1.maxPktSent = ul.maxPktSent := by
  refine prepare_invariant
    (fun ul' =>
      ul'.seqTs = ul.seqTs ∧
        ul'.seqTimeout = ul.seqTimeout ∧
        ul'.maxPktSent = ul.maxPktSent)
    ?_ (fun _ hKept => hKept) ?_ ?_ e ⟨rfl, rfl, rfl⟩
  · intro ul' ul'' hKept hSame
    exact ⟨hSame.seqTs.trans hKept.1,
      hSame.seqTimeout.trans hKept.2.1,
      hSame.maxPktSent.trans hKept.2.2⟩
  · intro ul' ack hKept _ hNew _
    have hStatus := ackStatus_timers ul' ack
    have hMax := (ackStatus_sameCounters ul' ack).maxPktSent
    rw [newAck_eq hNew]
    exact ⟨hStatus.1.trans hKept.1,
      hStatus.2.trans hKept.2.1, hMax.trans hKept.2.2⟩
  · intro now ul' hKept
    rcases growCa_eq now ul' with ⟨caTs, hEq⟩
    rw [hEq]
    exact hKept

/-
  A step prepares the upload and may then send. What holds of
  the log holds after both when each of them keeps it.
-/
theorem step_of_parts
    (inv : UlRun → Prop)
    {r : UlRun}
    {e : UlEvent}
    (hReady : inv ⟨(e.prepare r.ul).1, r.log⟩)
    (hSend :
      inv ⟨(e.prepare r.ul).1, r.log⟩ →
      e.sends r.ul =
          transmissions e.ts
            (ulSend e.ts (e.prepare r.ul).1).1.rto
            (ulSend e.ts (e.prepare r.ul).1).2.1 →
        inv
          ⟨(ulSend e.ts (e.prepare r.ul).1).1,
            r.log ++
              transmissions e.ts
                (ulSend e.ts (e.prepare r.ul).1).1.rto
                (ulSend e.ts (e.prepare r.ul).1).2.1⟩) :
    inv (r.step e) := by
  have hSends :
      e.sends r.ul =
        transmissions e.ts (e.apply r.ul).1.rto
          (e.apply r.ul).2 := rfl
  unfold UlRun.step
  rw [hSends]
  rw [e.apply_eq] at hSends ⊢
  by_cases hCalls : (e.prepare r.ul).2 = true
  · rw [if_pos hCalls] at hSends ⊢
    exact hSend hReady hSends
  · rw [if_neg hCalls, transmissions, List.map_nil,
      List.append_nil]
    exact hReady

theorem step_booked
    {P : Transmission → Prop}
    {r : UlRun}
    {e : UlEvent}
    (hClock : e.ClockReads)
    (hPaced : r.ul.Paced)
    (hBooked : r.Booked P)
    (hNew : ∀ t ∈ e.sends r.ul, P t) :
    (r.step e).Booked P := by
  rcases e.prepare_timers r.ul with ⟨hTs, hTimeout, hMax⟩
  refine step_of_parts (UlRun.Booked P) ?_ ?_
  · intro k hPos hLe
    simp only [hTs, hTimeout, hMax] at hLe ⊢
    exact hBooked k hPos hLe
  · intro hReady hSends
    exact ulSend_booked hClock.ts (e.prepare_paced hPaced)
      hReady (hSends ▸ hNew)

end BtPeer

------------------------------------------------------------
-- The Start Of A Run
------------------------------------------------------------

namespace BtPeer

theorem ulInit_paced
    (pIndex hasIndex : Nat)
    (mapped : Option (Nat → Byte)) :
    (ulInit pIndex hasIndex mapped).1.Paced := by
  have hThresh :
      (ulInit pIndex hasIndex mapped).1.ssThreshold.toNat =
        64 := rfl
  refine ⟨Nat.le_refl _, Nat.le_refl _, Nat.zero_le _, ?_,
    by omega, by omega, Nat.le_refl _, ?_⟩
  · simp [ulInit, Upload.zero]
  · have hWindow :
        (ulInit pIndex hasIndex mapped).1.windowSize.toNat =
          1 := rfl
    omega

/- A started upload, and what it sent. -/
theorem start_eq
    {ts : Word → Word}
    {pIndex hasIndex : Nat}
    {mapped : Option (Nat → Byte)}
    {r : UlRun}
    (hStart : UlRun.start ts pIndex hasIndex mapped = some r) :
    let ul := (ulInit pIndex hasIndex mapped).1
    r = ⟨(ulSend ts ul).1,
      transmissions ts (ulSend ts ul).1.rto
        (ulSend ts ul).2.1⟩ := by
  unfold UlRun.start at hStart
  split at hStart
  · cases hStart
  · rename_i ul hInit
    rw [hInit]
    split at hStart
    rename_i ul' sent ok hSend
    dsimp only
    rw [hSend]
    split at hStart
    · exact (Option.some.inj hStart).symm
    · cases hStart

theorem start_paced
    {ts : Word → Word}
    (hClock : ∀ seq, ts seq ≠ 0)
    {pIndex hasIndex : Nat}
    {mapped : Option (Nat → Byte)}
    {r : UlRun}
    (hStart : UlRun.start ts pIndex hasIndex mapped = some r) :
    r.ul.Paced ∧ r.ul.InWindow := by
  have hInit := ulInit_paced pIndex hasIndex mapped
  rw [start_eq hStart]
  refine ⟨ulSend_paced hClock hInit,
    ulSend_inWindow hClock (Nat.zero_le _) ?_⟩
  exact ⟨Nat.zero_le _, Nat.le_refl _⟩

theorem start_booked
    {P : Transmission → Prop}
    {ts : Word → Word}
    (hClock : ∀ seq, ts seq ≠ 0)
    {pIndex hasIndex : Nat}
    {mapped : Option (Nat → Byte)}
    {r : UlRun}
    (hStart : UlRun.start ts pIndex hasIndex mapped = some r)
    (hNew : ∀ t ∈ r.log, P t) :
    r.Booked P := by
  have hEq := start_eq hStart
  subst hEq
  have hEmpty :
      UlRun.Booked P
        ⟨(ulInit pIndex hasIndex mapped).1, []⟩ := by
    intro k hPos hLe
    exact absurd hPos (Nat.not_lt.mpr hLe)
  have hSent :=
    ulSend_booked hClock (ulInit_paced pIndex hasIndex mapped)
      hEmpty hNew
  rw [List.nil_append] at hSent
  exact hSent

end BtPeer
