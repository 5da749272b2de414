import BtPeer.Library.Clock
import BtPeer.Transfer.Backoff

/-
  The retransmission timers of an upload against real time.

  Timers are stored as absolute readings of a clock that
  wraps every 2^32 ms, with 0 for a timer that is not set.

  Key definitions include:
    * `getTimestampNow`
    * `TimedRun.step`
    * `TimedRun.Due`
    * `TimedRun.TimerTells`

  Key theorems include:
    * `UlRun.Reached.stamped`
    * `declaresLoss_iff`
    * `timer_accurate_iff`
-/

------------------------------------------------------------
-- Timers And The Log
------------------------------------------------------------

namespace BtPeer

/-
  The segments behind which the clock was read. A reading of
  0 is taken for a failure, and sets no timer.
-/
def readable (log : List Transmission) : List Transmission :=
  log.filter (fun t => t.time ≠ 0)

/- The timer that the last of these set, or 0. -/
def timerOf : Option Transmission → Word
| none => 0
| some t => t.time + t.rto

/- Every timer is the one of the last segment that set it. -/
def UlRun.Stamped (r : UlRun) : Prop :=
  ∀ k : Nat,
    r.ul.seqTimeout k = timerOf (lastSent (readable r.log) k)

theorem readable_append
    (log log' : List Transmission) :
    readable (log ++ log') = readable log ++ readable log' :=
  List.filter_append log log'

theorem readable_transmissions
    (ts : Word → Word)
    (rto : Word)
    (sent : List PktParam) :
    readable (transmissions ts rto sent) =
      transmissions ts rto
        (sent.filter (fun pp => ts pp.seq ≠ 0)) :=
  List.filter_map

theorem ulSend_stamped
    (ts : Word → Word)
    {ul : Upload}
    {log : List Transmission}
    (hLast : ul.lastPktSent.toNat ≤ lastSeq)
    (hStamped : UlRun.Stamped ⟨ul, log⟩) :
    UlRun.Stamped
      ⟨(ulSend ts ul).1,
        log ++
          transmissions ts (ulSend ts ul).1.rto
            (ulSend ts ul).2.1⟩ := by
  intro k
  have hSends := (ulSend_sends ts hLast).1
  have hOld : ul.seqTimeout k = _ := hStamped k
  rw [readable_append, readable_transmissions,
    lastSent_append]
  by_cases hSent :
      ∃ pp ∈ (ulSend ts ul).2.1, pp.seq.toNat = k
  · rcases hSent with ⟨pp, hMem, rfl⟩
    rw [(hSends.stamped pp hMem).2]
    by_cases hZero : ts pp.seq = 0
    · rw [if_pos hZero, lastSent_transmissions_none,
        Option.none_or, hOld]
      intro pp' hMem' hSame
      have hRead := of_decide_eq_true
        (List.mem_filter.mp hMem').2
      rw [BitVec.eq_of_toNat_eq hSame] at hRead
      exact hRead hZero
    · have hRead :
          ∃ pp' ∈
              (ulSend ts ul).2.1.filter
                (fun pp => ts pp.seq ≠ 0),
            pp'.seq = pp.seq :=
        ⟨pp, List.mem_filter.mpr
          ⟨hMem, decide_eq_true hZero⟩, rfl⟩
      rw [if_neg hZero, lastSent_transmissions hRead,
        Option.some_or, timerOf, hSends.rto,
        if_neg (List.ne_nil_of_mem hMem)]
  · have hNone :
        ∀ pp ∈ (ulSend ts ul).2.1, pp.seq.toNat ≠ k :=
      fun pp hMem hSeq => hSent ⟨pp, hMem, hSeq⟩
    rw [(hSends.kept k hNone).2, lastSent_transmissions_none,
      Option.none_or, hOld]
    intro pp hMem
    exact hNone pp (List.mem_filter.mp hMem).1

theorem step_stamped
    {r : UlRun}
    (hSteady : r.ul.Steady)
    (hStamped : r.Stamped)
    (e : UlEvent) :
    (r.step e).Stamped := by
  refine step_of_parts UlRun.Stamped ?_ ?_
  · intro k
    rw [(e.prepare_timers r.ul).2.1]
    exact hStamped k
  · intro hReady _
    exact ulSend_stamped e.ts
      (e.prepare_steady hSteady).sent hReady

theorem launch_stamped
    (ts : Word → Word)
    (pIndex hasIndex : Nat)
    (mapped : Option (Nat → Byte)) :
    (UlRun.launch ts pIndex hasIndex mapped).Stamped := by
  have hInit :
      UlRun.Stamped
        ⟨(ulInit pIndex hasIndex mapped).1, []⟩ :=
    fun _ => rfl
  have hLast :
      (ulInit pIndex hasIndex mapped).1.lastPktSent.toNat ≤
        lastSeq :=
    Nat.zero_le _
  have hSent := ulSend_stamped ts hLast hInit
  rw [List.nil_append] at hSent
  exact launch_cases UlRun.Stamped hInit hSent

theorem UlRun.Reached.stamped
    {r : UlRun}
    (hReached : r.Reached) :
    r.Stamped :=
  (hReached.invariant (fun r => r.ul.Steady ∧ r.Stamped)
    (fun ts pIndex hasIndex mapped =>
      ⟨launch_steady ts pIndex hasIndex mapped,
        launch_stamped ts pIndex hasIndex mapped⟩)
    (fun _ e hBoth =>
      ⟨e.apply_steady hBoth.1,
        step_stamped hBoth.1 hBoth.2 e⟩)).2

end BtPeer

------------------------------------------------------------
-- Runs In Real Time
------------------------------------------------------------

namespace BtPeer

/- What `gettimeofday` gives. -/
structure Timeval where
  sec : Nat
  usec : Nat

namespace Timeval

/- Milliseconds since the epoch. -/
def ms (tv : Timeval) : Nat :=
  tv.sec * 1000 + tv.usec / 1000

end Timeval

/- `get_timestamp_now`, which gives 0 on a failure. -/
def getTimestampNow : Option Timeval → Word
| none => 0
| some tv =>
    BitVec.ofNat 32 (tv.sec * 1000 + tv.usec / 1000)

theorem toNat_getTimestampNow
    (tv : Timeval) :
    (getTimestampNow (some tv)).toNat = tv.ms % 2 ^ 32 :=
  BitVec.toNat_ofNat _ _

/- An event of an upload with the real times of its clock. -/
inductive TimedEvent where
  | ack (now : Timeval) (ts : Word → Timeval) (num : Word)
  | check (now : Timeval) (ts : Word → Timeval)

/- A segment as it was sent, with the real time behind it. -/
structure TimedTransmission where
  seq : Word
  time : Timeval
  rto : Word

/- An upload with the log of what it sent in real time. -/
structure TimedRun where
  ul : Upload
  log : List TimedTransmission

/- The readings of the clock behind the segments. -/
def readTs
    (ts : Word → Timeval)
    (seq : Word) : Word :=
  getTimestampNow (some (ts seq))

namespace TimedEvent

def ts : TimedEvent → Word → Timeval
| .ack _ ts _ => ts
| .check _ ts => ts

/- The event as the code sees it. -/
def read : TimedEvent → UlEvent
| .ack now ts num =>
    .ack (getTimestampNow (some now)) (readTs ts) num
| .check now ts =>
    .check (getTimestampNow (some now)) (readTs ts)

end TimedEvent

namespace TimedTransmission

def read (t : TimedTransmission) : Transmission where
  seq := t.seq
  time := getTimestampNow (some t.time)
  rto := t.rto

/- When the `rto` in force at the transmission is over. -/
def deadline (t : TimedTransmission) : Nat :=
  t.time.ms + t.rto.toNat

end TimedTransmission

/- The log entries of the packets sent by one `ul_send`. -/
def timedTransmissions
    (ts : Word → Timeval)
    (rto : Word)
    (sent : List PktParam) : List TimedTransmission :=
  sent.map (fun pp => ⟨pp.seq, ts pp.seq, rto⟩)

namespace TimedRun

def read (r : TimedRun) : UlRun where
  ul := r.ul
  log := r.log.map TimedTransmission.read

def step
    (r : TimedRun)
    (e : TimedEvent) : TimedRun where
  ul := (e.read.apply r.ul).1
  log :=
    r.log ++
      timedTransmissions e.ts (e.read.apply r.ul).1.rto
        (e.read.apply r.ul).2

/- What `start_upload` leaves behind. -/
def launch
    (ts : Word → Timeval)
    (pIndex hasIndex : Nat)
    (mapped : Option (Nat → Byte)) : TimedRun :=
  match ulInit pIndex hasIndex mapped with
  | (ul, false) => ⟨ul, []⟩
  | (ul, true) =>
      match ulSend (readTs ts) ul with
      | (ul', sent, _) =>
          ⟨ul', timedTransmissions ts ul'.rto sent⟩

/- `start_upload`, and then any events at any times. -/
def Reached (r : TimedRun) : Prop :=
  ∃ ts pIndex hasIndex mapped es,
    EventMachine.run step
      (launch ts pIndex hasIndex mapped) es = r

end TimedRun

theorem map_read_timedTransmissions
    (ts : Word → Timeval)
    (rto : Word)
    (sent : List PktParam) :
    (timedTransmissions ts rto sent).map
        TimedTransmission.read =
      transmissions (readTs ts) rto sent :=
  List.map_map

theorem TimedEvent.read_ts
    (e : TimedEvent) :
    e.read.ts = readTs e.ts := by
  cases e <;> rfl

namespace TimedRun

/- The code takes the step that the readings stand for. -/
theorem read_step
    (r : TimedRun)
    (e : TimedEvent) :
    (r.step e).read = r.read.step e.read := by
  simp only [read, step, UlRun.step, UlEvent.sends,
    List.map_append, map_read_timedTransmissions,
    TimedEvent.read_ts]

theorem read_launch
    (ts : Word → Timeval)
    (pIndex hasIndex : Nat)
    (mapped : Option (Nat → Byte)) :
    (launch ts pIndex hasIndex mapped).read =
      UlRun.launch (readTs ts) pIndex hasIndex mapped := by
  unfold launch UlRun.launch
  rcases ulInit pIndex hasIndex mapped with ⟨ul, ok⟩
  cases ok with
  | false => rfl
  | true =>
      simp only [read, map_read_timedTransmissions]

theorem Reached.read
    {r : TimedRun}
    (hReached : r.Reached) :
    r.read.Reached := by
  rcases hReached with
    ⟨ts, pIndex, hasIndex, mapped, es, rfl⟩
  refine ⟨readTs ts, pIndex, hasIndex, mapped,
    es.map TimedEvent.read, ?_⟩
  rw [EventMachine.run_map read_step, read_launch]

end TimedRun

end BtPeer

------------------------------------------------------------
-- Timer Accuracy
------------------------------------------------------------

namespace BtPeer

/- The last time that segment `k` was sent. -/
def lastSentAt
    (log : List TimedTransmission)
    (k : Nat) : Option TimedTransmission :=
  log.reverse.find? (fun t => t.seq.toNat = k)

/- The segments behind which the clock was not read as 0. -/
def readableAt
    (log : List TimedTransmission) :
    List TimedTransmission :=
  log.filter (fun t => getTimestampNow (some t.time) ≠ 0)

theorem lastSent_map_read
    (log : List TimedTransmission)
    (k : Nat) :
    lastSent (log.map TimedTransmission.read) k =
      (lastSentAt log k).map TimedTransmission.read := by
  unfold lastSent lastSentAt
  rw [← List.map_reverse, List.find?_map]
  rfl

theorem readable_map_read
    (log : List TimedTransmission) :
    readable (log.map TimedTransmission.read) =
      (readableAt log).map TimedTransmission.read :=
  List.filter_map

/- `ul_check_timeout` counts one more timeout. -/
def DeclaresLoss
    (now : Word)
    (ts : Word → Word)
    (ul : Upload) : Prop :=
  (ulCheckTimeout now ts ul).1.timeoutCnt =
    ul.timeoutCnt + 1

theorem declaresLoss_iff
    (now : Word)
    (ts : Word → Word)
    (ul : Upload) :
    DeclaresLoss now ts ul ↔
      ul.finished = false ∧ timerExpired now ul = true := by
  have hApply := UlEvent.apply_eq (.check now ts) ul
  have hCheck :
      (ulCheckTimeout now ts ul).1 =
        ((UlEvent.check now ts).apply ul).1 := rfl
  rcases growCa_eq now ul with ⟨caTs, hEq⟩
  unfold DeclaresLoss
  rw [hCheck, hApply]
  simp only [UlEvent.prepare, growCa_timerExpired]
  by_cases hDone : ul.finished = true
  · rw [if_pos hDone, if_neg Bool.false_ne_true, hDone]
    refine iff_of_false (by dsimp only; omega) ?_
    rintro ⟨hOpen, _⟩
    cases hOpen
  · by_cases hLate : timerExpired now ul = true
    · rw [if_neg hDone, if_pos hLate, if_pos rfl,
        (ulSend_same _ _).timeoutCnt, hEq]
      exact iff_of_true rfl
        ⟨(Bool.not_eq_true _).mp hDone, hLate⟩
    · rw [if_neg hDone, if_neg hLate,
        if_neg Bool.false_ne_true, hEq]
      refine iff_of_false (by dsimp only; omega) ?_
      rintro ⟨_, hExpired⟩
      exact hLate hExpired

namespace TimedRun

/- The segment waited for. -/
def waited (r : TimedRun) : Nat :=
  (r.ul.lastPktAcked + 1).toNat

/-
  The upload is not finished, and the `rto` in force at the
  last transmission of the segment waited for is over.
-/
def Due
    (r : TimedRun)
    (now : Timeval) : Prop :=
  r.ul.finished = false ∧
    ∃ t, lastSentAt r.log r.waited = some t ∧
      t.deadline ≤ now.ms

/-
  The timer tells the time: the readings of the deadline and
  of the present time are in the order of these times.

  The timer is the one of the last transmission `t` unless
  the clock was read as 0 behind it. Then the timer of an
  earlier transmission `t'` is still set, or none.
-/
def TimerTells
    (r : TimedRun)
    (now : Timeval) : Prop :=
  r.ul.finished = false →
    ∀ t, lastSentAt r.log r.waited = some t →
      match lastSentAt (readableAt r.log) r.waited with
      | none => now.ms < t.deadline
      | some t' =>
          WrapClock.Honest (2 ^ 32) t'.deadline now.ms ↔
            (t'.deadline ≤ now.ms ↔ t.deadline ≤ now.ms)

end TimedRun

/- The timer that a transmission sets is its deadline. -/
theorem toNat_timerOf_read
    (t : TimedTransmission) :
    (timerOf (some t.read)).toNat = t.deadline % 2 ^ 32 := by
  have hSum :
      (timerOf (some t.read)).toNat =
        ((getTimestampNow (some t.time)).toNat +
          t.rto.toNat) % 2 ^ 32 :=
    BitVec.toNat_add _ _
  rw [hSum, toNat_getTimestampNow, Nat.mod_add_mod]
  rfl

theorem timerExpired_iff
    {ul : Upload}
    {o : Option TimedTransmission}
    (hTimer :
      ul.seqTimeout (ul.lastPktAcked + 1).toNat =
        timerOf (o.map TimedTransmission.read))
    (now : Timeval) :
    timerExpired (getTimestampNow (some now)) ul = true ↔
      ∃ t, o = some t ∧
        WrapClock.Fires (2 ^ 32) t.deadline now.ms := by
  simp only [timerExpired, hTimer, Bool.not_eq_true',
    Bool.or_eq_false_iff, decide_eq_false_iff_not,
    BitVec.not_lt, BitVec.le_def]
  cases o with
  | none => simp [timerOf]
  | some t =>
      have hZero :
          timerOf (some t.read) = 0 ↔
            t.deadline % 2 ^ 32 = 0 := by
        rw [BitVec.toNat_eq, toNat_timerOf_read]
        rfl
      simp only [Option.map_some, hZero, toNat_timerOf_read,
        toNat_getTimestampNow, Option.some.injEq,
        exists_eq_left']
      rfl

namespace TimedRun

/- The timer of the segment waited for, from the log. -/
theorem Reached.timer
    {r : TimedRun}
    (hReached : r.Reached) :
    r.ul.seqTimeout r.waited =
      timerOf
        ((lastSentAt (readableAt r.log) r.waited).map
          TimedTransmission.read) := by
  have hStamped := hReached.read.stamped r.waited
  simp only [TimedRun.read, readable_map_read,
    lastSent_map_read] at hStamped
  exact hStamped

/- A segment never sent has no timer. -/
theorem lastSentAt_readableAt_none
    {log : List TimedTransmission}
    {k : Nat}
    (hNone : lastSentAt log k = none) :
    lastSentAt (readableAt log) k = none := by
  refine List.find?_eq_none.mpr ?_
  intro t hMem
  have hLogged :=
    (List.mem_filter.mp (List.mem_reverse.mp hMem)).1
  exact List.find?_eq_none.mp hNone t
    (List.mem_reverse.mpr hLogged)

/- When no reading is 0, only the order has to be right. -/
theorem timerTells_of_read
    {r : TimedRun}
    {now : Timeval}
    (hRead :
      ∀ t ∈ r.log, getTimestampNow (some t.time) ≠ 0)
    (hHonest :
      ∀ t, lastSentAt r.log r.waited = some t →
        WrapClock.Honest (2 ^ 32) t.deadline now.ms) :
    r.TimerTells now := by
  have hAll : readableAt r.log = r.log :=
    List.filter_eq_self.mpr
      (fun t hMem => decide_eq_true (hRead t hMem))
  intro _ t hLast
  rw [hAll, hLast]
  exact iff_of_true (hHonest t hLast) Iff.rfl

end TimedRun

/-
  Whatever an upload has been through and whatever the time
  is: `ul_check_timeout` declares a loss when the `rto` of
  the segment waited for is over, and only then, exactly when
  the timer tells the time.
-/
theorem timer_accurate_iff
    {r : TimedRun}
    (hReached : r.Reached)
    (now : Timeval)
    (ts : Word → Timeval) :
    (DeclaresLoss (getTimestampNow (some now)) (readTs ts)
        r.ul ↔ r.Due now) ↔
      r.TimerTells now := by
  rw [declaresLoss_iff, timerExpired_iff hReached.timer]
  unfold TimedRun.Due TimedRun.TimerTells
  by_cases hOpen : r.ul.finished = false
  · simp only [hOpen, true_and, true_implies]
    cases hLast : lastSentAt r.log r.waited with
    | none =>
        rw [TimedRun.lastSentAt_readableAt_none hLast]
        simp
    | some t =>
        cases hRead :
            lastSentAt (readableAt r.log) r.waited with
        | none => simp
        | some t' =>
            simp only [Option.some.injEq, exists_eq_left',
              forall_eq']
            exact WrapClock.fires_agrees_iff _ _ _ _
  · refine iff_of_true (iff_of_false ?_ ?_) ?_
    · exact fun hLoss => hOpen hLoss.1
    · exact fun hDue => hOpen hDue.1
    · exact fun hNotDone => absurd hNotDone hOpen

/-
  A segment that was sent and is checked within one period of
  the clock: its timer is set, and 1 s later it has not
  expired.
-/
theorem timer_accurate_in_time :
    let r :=
      TimedRun.launch (fun _ => ⟨1000, 0⟩) 0 0
        (some (fun _ => 7))
    DeclaresLoss (getTimestampNow (some ⟨1001, 0⟩))
        (readTs (fun _ => ⟨1001, 0⟩)) r.ul ↔
      r.Due ⟨1001, 0⟩ := by
  refine (timer_accurate_iff ?_ _ _).mpr ?_
  · exact
      ⟨fun _ => ⟨1000, 0⟩, 0, 0, some (fun _ => 7), [], rfl⟩
  · refine TimedRun.timerTells_of_read ?_ ?_
    · decide +kernel
    · intro t hLast
      have hFirst :
          lastSentAt
              (TimedRun.launch (fun _ => ⟨1000, 0⟩) 0 0
                (some (fun _ => 7))).log 1 =
            some ⟨1, ⟨1000, 0⟩, 5000⟩ := rfl
      rw [← Option.some.inj (hFirst.symm.trans hLast)]
      decide

/-
  A segment is sent at 1417339205384 ms, which is read as
  4294965000, with an `rto` of 5000 ms: its timer is stored
  as 2704, and has expired 1 ms later.
-/
theorem timer_wraps :
    ¬ ∀ (r : TimedRun) (now : Timeval) (ts : Word → Timeval),
        r.Reached →
          (DeclaresLoss (getTimestampNow (some now))
              (readTs ts) r.ul ↔ r.Due now) := by
  intro hAll
  have hAccurate :=
    hAll
      (TimedRun.launch (fun _ => ⟨1417339205, 384000⟩) 0 0
        (some (fun _ => 7)))
      ⟨1417339205, 385000⟩ (fun _ => ⟨1417339205, 385000⟩)
      ⟨fun _ => ⟨1417339205, 384000⟩, 0, 0,
        some (fun _ => 7), [], rfl⟩
  have hLoss := hAccurate.mp (by
    unfold DeclaresLoss
    decide +kernel)
  rcases hLoss with ⟨_, t, hLast, hOver⟩
  have hFirst :
      lastSentAt
          (TimedRun.launch (fun _ => ⟨1417339205, 384000⟩)
            0 0 (some (fun _ => 7))).log 1 =
        some ⟨1, ⟨1417339205, 384000⟩, 5000⟩ := rfl
  rw [← Option.some.inj (hFirst.symm.trans hLast)] at hOver
  revert hOver
  decide

end BtPeer
