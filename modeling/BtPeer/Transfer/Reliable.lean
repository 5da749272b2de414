import BtPeer.Transfer.Link

/-
  One transfer over an unreliable network. While no upload is
  restarted behind the downloader's back and the clock can be
  read, the uploader, the downloader and everything in flight
  agree.

  Key definitions include:
    * `Link.requested`
    * `Link.Sync`
    * `Link.ClockOk`

  Key theorems include:
    * `sync_step`
    * `transfer_reliable`
    * `duplicated_get_harmless`
-/

------------------------------------------------------------
-- Agreement Of The Two Ends
------------------------------------------------------------

namespace BtPeer

namespace Link

/- The state once the download of a chunk was asked for. -/
def requested
    (ul : Upload)
    (getIndex pIndex : Nat)
    (filename : CString)
    (now : Word) : Link :=
  (idle ul).onStart getIndex pIndex filename now

/- `max_pkt_sent` of the upload, 0 before there is one. -/
def sentMax (s : Link) : Nat :=
  if s.ulTransfer = 0 then 0 else s.ul.maxPktSent.toNat

/-
  The uploader, the downloader and the packets in flight
  agree on the chunk `content` and on how far it got.
-/
structure Sync
    (content : Nat → Byte)
    (s : Link) : Prop where
  holds : s.dl.Holds {content} s.sentMax
  datas :
    ∀ d ∈ s.datas,
      CarriesSegment content d.2 ∧
        d.2.seq.toNat ≤ s.sentMax
  acks :
    ∀ a ∈ s.acks,
      a.2.ack.toNat ≤ s.dl.rwin.nextSeq.toNat - 1
  opened :
    s.ulTransfer ≠ 0 →
      s.ul.Bounded ∧
        s.ul.lastPktAcked.toNat ≤
          s.dl.rwin.nextSeq.toNat - 1
  mapped :
    s.uploading = true →
      s.ulTransfer ≠ 0 ∧ s.ul.data = some content

theorem requested_sync
    (content : Nat → Byte)
    (ul : Upload)
    (getIndex pIndex : Nat)
    (filename : CString)
    (now : Word) :
    (requested ul getIndex pIndex filename now).Sync
      content where
  holds := dlInit_holds {content} now pIndex getIndex filename
  datas := by simp [requested, idle, onStart]
  acks := by simp [requested, idle, onStart]
  opened := by simp [requested, idle, onStart]
  mapped := by simp [requested, idle, onStart]

end Link

end BtPeer

------------------------------------------------------------
-- Steps That Keep The Agreement
------------------------------------------------------------

namespace BtPeer

namespace Link

/-
  Sending from an upload `ul₁` whose acknowledged part the
  downloader has. `ul₃` is the upload kept afterwards.
-/
theorem Sync.sendData
    {content : Nat → Byte}
    {s : Link}
    (hSync : s.Sync content)
    {ts : Word → Word}
    {ul₁ ul₂ ul₃ : Upload}
    {sent : List PktParam}
    (hEffect : ul₁.SendEffect ts ul₂ sent)
    (hClock : ul₁.ClockReads ts)
    (hData : ul₁.data = some content)
    (hMax : s.sentMax ≤ ul₂.maxPktSent.toNat)
    (hAcked :
      ul₁.lastPktAcked.toNat ≤
        s.dl.rwin.nextSeq.toNat - 1)
    {up : Bool}
    (hKept : ul₃ = ul₂ ∨ (up = false ∧ ul₃ = ulDeinit ul₂))
    {transfer : Nat}
    (hOpen : transfer ≠ 0)
    (stack : Nat → Byte) :
    ({ s with
        uploading := up
        ul := ul₃
        ulTransfer := transfer }.sendData stack
          sent).Sync content := by
  have hMaxKept : ul₃.maxPktSent = ul₂.maxPktSent := by
    rcases hKept with rfl | ⟨_, rfl⟩ <;> rfl
  have hAckedKept : ul₃.lastPktAcked = ul₁.lastPktAcked := by
    rcases hKept with rfl | ⟨_, rfl⟩ <;>
      exact hEffect.lastPktAcked
  have hSentMax :
      ({ s with
          uploading := up
          ul := ul₃
          ulTransfer := transfer }.sendData stack
            sent).sentMax =
        ul₂.maxPktSent.toNat := by
    simp only [sentMax, Link.sendData, if_neg hOpen, hMaxKept]
  refine ⟨?_, ?_, hSync.acks, ?_, ?_⟩
  · rw [hSentMax]
    exact hSync.holds.mono hMax hEffect.bounded.max
  · intro d hMem
    rw [hSentMax]
    rcases List.mem_append.mp hMem with hOld | hNew
    · have hSegment := hSync.datas d hOld
      exact ⟨hSegment.1, Nat.le_trans hSegment.2 hMax⟩
    · rcases List.mem_map.mp hNew with ⟨pkt, hPkt, rfl⟩
      refine emit_segments stack hData
        (P := fun seq =>
          seq.toNat ≤ ul₂.maxPktSent.toNat) ?_ hPkt
      intro pp hPP
      rcases hEffect.segments pp hPP with
        ⟨seq, hSeg, hFirst, hLast, hCounted⟩
      exact ⟨seq, hSeg, hFirst, hLast, hCounted hClock⟩
  · intro _
    refine ⟨?_, ?_⟩
    case refine_2 =>
      change
        ul₃.lastPktAcked.toNat ≤
          s.dl.rwin.nextSeq.toNat - 1
      rw [hAckedKept]
      exact hAcked
    rcases hKept with rfl | ⟨_, rfl⟩
    · exact hEffect.bounded
    · exact ⟨hEffect.bounded.sent, hEffect.bounded.max,
        hEffect.bounded.acked, hEffect.bounded.finished⟩
  · intro hUp
    rcases hKept with rfl | ⟨hDown, _⟩
    · exact ⟨hOpen, hEffect.data.trans hData⟩
    · exact absurd (hUp.symm.trans hDown) (by simp)

/- The downloader acknowledges what it has. -/
theorem Sync.sendAck
    {content : Nat → Byte}
    {s : Link}
    (hSync : s.Sync content)
    {dl : Download}
    {sent : List PktParam}
    (hHolds : dl.Holds {content} s.sentMax)
    (hNext :
      s.dl.rwin.nextSeq.toNat ≤ dl.rwin.nextSeq.toNat)
    (hAcks : AcksOf dl sent)
    (down : Bool)
    (stack : Nat → Byte) :
    ({ s with dl := dl, downloading := down }.sendAck stack
      sent).Sync content := by
  refine ⟨hHolds, hSync.datas, ?_, ?_, hSync.mapped⟩
  · intro a hMem
    rcases List.mem_append.mp hMem with hOld | hNew
    · exact Nat.le_trans (hSync.acks a hOld)
        (Nat.sub_le_sub_right hNext 1)
    · rcases List.mem_map.mp hNew with ⟨pkt, hPkt, rfl⟩
      have hCarried := emit_acks stack hAcks hPkt
      have hLow := hHolds.low
      rw [hCarried.ack]
      change
        (dl.rwin.nextSeq - 1).toNat ≤
          dl.rwin.nextSeq.toNat - 1
      bv_omega
  · intro hOpen
    rcases hSync.opened hOpen with ⟨hBounded, hAcked⟩
    exact ⟨hBounded, Nat.le_trans hAcked
      (Nat.sub_le_sub_right hNext 1)⟩

end Link

end BtPeer

------------------------------------------------------------
-- One Step Of A Transfer
------------------------------------------------------------

namespace BtPeer

namespace Link

/-
  The clock can be read for every segment that the upload of
  this step sends for the first time.
-/
def ClockOk (s : Link) : LinkEvent → Prop
| .get _ admitted _ _ ts _ =>
    admitted = true → Upload.zero.ClockReads ts
| .ack _ _ ts _ => s.ul.ClockReads ts
| .ulTimeout _ ts _ => s.ul.ClockReads ts
| _ => True

/-
  No other download starts, and a GET is admitted only while
  at most one segment was sent.
-/
def NoRestart (s : Link) : LinkEvent → Prop
| .start _ _ _ _ => False
| .get _ admitted _ _ _ _ =>
    admitted = true →
      s.ulTransfer = 0 ∨ s.ul.maxPktSent.toNat ≤ 1
| _ => True

theorem sync_onGet
    {content : Nat → Byte}
    {s : Link}
    (hSync : s.Sync content)
    {transfer : Nat}
    (hOpen : transfer ≠ 0)
    (hRestart :
      s.ulTransfer = 0 ∨ s.ul.maxPktSent.toNat ≤ 1)
    {ts : Word → Word}
    (hClock : Upload.zero.ClockReads ts)
    (pIndex hasIndex : Nat)
    (stack : Nat → Byte) :
    (s.onGet content transfer pIndex hasIndex ts stack).Sync
      content := by
  have hFresh :=
    (ulSend_init ts pIndex hasIndex (some content)).2
      (hClock 1 (by decide))
  have hEffect :=
    ulSend_effect ts
      (ulInit_bounded pIndex hasIndex (some content))
  refine hSync.sendData hEffect hClock rfl ?_
    (Nat.zero_le _) (Or.inl rfl) hOpen stack
  rw [hFresh]
  unfold sentMax
  split
  · exact Nat.zero_le _
  · rename_i hSession
    exact hRestart.resolve_left hSession

theorem sync_onAck
    {content : Nat → Byte}
    {s : Link}
    (hSync : s.Sync content)
    {pkt : Packet}
    (hAck :
      pkt.ack.toNat ≤ s.dl.rwin.nextSeq.toNat - 1)
    {ts : Word → Word}
    (hClock : s.ul.ClockReads ts)
    (now : Word)
    (stack : Nat → Byte) :
    (s.onAck pkt now ts stack).Sync content := by
  unfold onAck
  split
  · rename_i hUp
    rcases hSync.mapped hUp with ⟨hOpen, hData⟩
    rcases hSync.opened hOpen with ⟨hBounded, hAcked⟩
    have hHandled := ulHandleAck_effect now s.ul pkt.ack
    have hEffect :=
      ulSend_effect ts (hHandled.bounded hBounded)
    have hSent := hEffect.maxPktSent
    rw [hHandled.maxPktSent] at hSent
    refine hSync.sendData hEffect ?_
      (hHandled.data.trans hData) ?_ ?_ ?_ hOpen stack
    · unfold Upload.ClockReads
      rw [hHandled.maxPktSent]
      exact hClock
    · rw [sentMax, if_neg hOpen]
      exact hSent
    · rcases hHandled.acked with ⟨hSame, _⟩ | ⟨hNew, _⟩
      · rw [hSame]
        exact hAcked
      · rw [hNew]
        exact hAck
    · exact onAck_kept _
  · exact hSync

theorem sync_onUlTimeout
    {content : Nat → Byte}
    {s : Link}
    (hSync : s.Sync content)
    {ts : Word → Word}
    (hClock : s.ul.ClockReads ts)
    (now : Word)
    (stack : Nat → Byte) :
    (s.onUlTimeout now ts stack).Sync content := by
  unfold onUlTimeout
  split
  · rename_i hUp
    rcases hSync.mapped hUp with ⟨hOpen, hData⟩
    rcases hSync.opened hOpen with ⟨hBounded, hAcked⟩
    have hEffect := ulCheckTimeout_effect now ts hBounded
    refine hSync.sendData hEffect hClock hData ?_ hAcked ?_
      hOpen stack
    · rw [sentMax, if_neg hOpen]
      exact hEffect.maxPktSent
    · exact onUlTimeout_kept _ _
  · exact hSync

theorem sync_onData
    {content : Nat → Byte}
    {s : Link}
    (hSync : s.Sync content)
    {pkt : Packet}
    (hSegment : CarriesSegment content pkt)
    (hSent : pkt.seq.toNat ≤ s.sentMax)
    (now ts : Word)
    (stack : Nat → Byte) :
    (s.onData pkt now ts stack).Sync content := by
  unfold onData
  split
  · rcases dlRecv_holds hSync.holds hSegment.dataLen
        (fun _ => ⟨content, rfl, hSegment, hSent⟩) now ts with
      ⟨hHolds, hNext, hAcks⟩
    exact hSync.sendAck hHolds hNext hAcks _ stack
  · exact hSync

theorem sync_onDlTimeout
    {content : Nat → Byte}
    {s : Link}
    (hSync : s.Sync content)
    (now ts : Word)
    (stack : Nat → Byte) :
    (s.onDlTimeout now ts stack).Sync content := by
  unfold onDlTimeout
  split
  · rcases dlCheckTimeout_holds hSync.holds now ts with
      ⟨hHolds, hNext, hAcks⟩
    exact hSync.sendAck hHolds hNext hAcks _ stack
  · exact hSync

/- Ending a side drops its activity and nothing else. -/
theorem sync_ulEnd
    {content : Nat → Byte}
    {s : Link}
    (hSync : s.Sync content) :
    ({ s with uploading := false, ul := ulDeinit s.ul } :
      Link).Sync content where
  holds := hSync.holds
  datas := hSync.datas
  acks := hSync.acks
  opened := by
    intro hOpen
    rcases hSync.opened hOpen with ⟨hBounded, hAcked⟩
    exact ⟨⟨hBounded.sent, hBounded.max, hBounded.acked,
      hBounded.finished⟩, hAcked⟩
  mapped := by simp

theorem sync_step
    {chunk : Nat → Nat → Byte}
    {getIndex : Nat}
    {s : Link}
    (hSync : s.Sync (chunk getIndex))
    (hGets : s.gets = [getIndex])
    {e : LinkEvent}
    (hRestart : s.NoRestart e)
    (hClock : s.ClockOk e) :
    (s.step chunk e).Sync (chunk getIndex) := by
  cases e with
  | start getIndex pIndex filename now =>
      exact absurd hRestart not_false
  | get n admitted pIndex hasIndex ts stack =>
      simp only [step]
      split
      · rename_i index hFound
        have hIndex : index = getIndex := by
          have hMem := List.mem_of_getElem? hFound
          rw [hGets] at hMem
          exact List.mem_singleton.mp hMem
        subst hIndex
        exact sync_onGet hSync (Nat.succ_ne_zero n)
          (hRestart rfl) (hClock rfl) pIndex hasIndex stack
      · exact hSync
  | data n now ts stack =>
      simp only [step]
      split
      · rename_i tag pkt hFound
        rcases hSync.datas _ (List.mem_of_getElem? hFound) with
          ⟨hSegment, hSent⟩
        exact sync_onData hSync hSegment hSent now ts stack
      · exact hSync
  | ack n now ts stack =>
      simp only [step]
      split
      · rename_i tag pkt hFound
        have hAck :=
          hSync.acks _ (List.mem_of_getElem? hFound)
        exact sync_onAck hSync hAck hClock now stack
      · exact hSync
  | dlTimeout now ts stack =>
      exact sync_onDlTimeout hSync now ts stack
  | ulTimeout now ts stack =>
      exact sync_onUlTimeout hSync hClock now stack
  | dlEnd =>
      exact ⟨hSync.holds, hSync.datas, hSync.acks,
        hSync.opened, hSync.mapped⟩
  | ulEnd => exact sync_ulEnd hSync

end Link

end BtPeer

------------------------------------------------------------
-- Reliable Transfer
------------------------------------------------------------

namespace BtPeer

open EventMachine

namespace Link

/- One session: its GET is admitted once. -/
def GetOnce (s : Link) : LinkEvent → Prop
| .start _ _ _ _ => False
| .get _ admitted _ _ _ _ =>
    admitted = true → s.ulTransfer = 0
| _ => True

/-
  Everything received is stored as the chunk has it, the
  counters of the two ends are ordered, and what is finished
  is complete.
-/
structure Delivered
    (content : Nat → Byte)
    (s : Link) : Prop where
  stored :
    ∀ seq : Word,
      Received s.dl seq →
        BlockStored content s.dl.buffer seq.toNat
  counters :
    s.ulTransfer ≠ 0 →
      s.ul.lastPktAcked ≤ s.dl.rwin.nextSeq - 1 ∧
        s.dl.rwin.nextSeq - 1 ≤ s.ul.maxPktSent
  ulFinished :
    s.ulTransfer ≠ 0 →
      s.ul.finished = true → s.dl.finished = true
  dlFinished :
    s.dl.finished = true →
      ∀ i, i < btChunkSize → s.dl.buffer i = content i

/- `rwin.next_seq - 1` does not wrap. -/
theorem Sync.toNat_ack
    {content : Nat → Byte}
    {s : Link}
    (hSync : s.Sync content) :
    (s.dl.rwin.nextSeq - 1).toNat =
      s.dl.rwin.nextSeq.toNat - 1 := by
  have hLow := hSync.holds.low
  bv_omega

theorem Sync.counters
    {content : Nat → Byte}
    {s : Link}
    (hSync : s.Sync content)
    (hOpen : s.ulTransfer ≠ 0) :
    s.ul.lastPktAcked ≤ s.dl.rwin.nextSeq - 1 ∧
      s.dl.rwin.nextSeq - 1 ≤ s.ul.maxPktSent := by
  have hAck := hSync.holds.ack_le
  rw [sentMax, if_neg hOpen] at hAck
  rw [BitVec.le_def, BitVec.le_def, hSync.toNat_ack]
  exact ⟨(hSync.opened hOpen).2, hAck⟩

theorem Sync.delivered
    {content : Nat → Byte}
    {s : Link}
    (hSync : s.Sync content) :
    s.Delivered content where
  stored := by
    intro seq hReceived
    rcases hSync.holds.received hReceived with
      ⟨_, rfl, hStored⟩
    exact hStored
  counters := hSync.counters
  ulFinished := by
    intro hOpen hFinished
    rcases hSync.opened hOpen with ⟨hBounded, hAcked⟩
    have hLast := hBounded.finished hFinished
    have hLow := hSync.holds.low
    have hHigh := hSync.holds.high
    exact hSync.holds.complete.mpr (by omega)
  dlFinished := by
    intro hFinished i hi
    exact hSync.holds.whole hFinished hi

theorem GetOnce.noRestart
    {s : Link}
    {e : LinkEvent}
    (hOnce : s.GetOnce e) :
    s.NoRestart e := by
  cases e with
  | get n admitted pIndex hasIndex ts stack =>
      exact fun hAdmitted => Or.inl (hOnce hAdmitted)
  | _ => exact hOnce

theorem NoRestart.not_start
    {s : Link}
    {e : LinkEvent}
    (hRestart : s.NoRestart e)
    (getIndex pIndex : Nat)
    (filename : CString)
    (now : Word) :
    e ≠ .start getIndex pIndex filename now := by
  rintro rfl
  exact hRestart

end Link

/- The agreement, with the one GET of the transfer. -/
structure Link.OnTransfer
    (content : Nat → Byte)
    (getIndex : Nat)
    (s : Link) : Prop where
  sync : s.Sync content
  gets : s.gets = [getIndex]

theorem Link.OnTransfer.step
    {chunk : Nat → Nat → Byte}
    {getIndex : Nat}
    {s : Link}
    (hInv : s.OnTransfer (chunk getIndex) getIndex)
    {e : LinkEvent}
    (hRestart : s.NoRestart e)
    (hClock : s.ClockOk e) :
    (s.step chunk e).OnTransfer (chunk getIndex) getIndex where
  sync := sync_step hInv.sync hInv.gets hRestart hClock
  gets :=
    (step_gets chunk s hRestart.not_start).trans hInv.gets

/-
  In every run of one session in which the clock can be read
  for new segments, the transfer is reliable.
-/
theorem transfer_reliable
    (chunk : Nat → Nat → Byte)
    (ul : Upload)
    (getIndex pIndex : Nat)
    (filename : CString)
    (now : Word)
    {es : List LinkEvent}
    (hAlong :
      Along (Link.step chunk)
        (fun s e => s.GetOnce e ∧ s.ClockOk e)
        (Link.requested ul getIndex pIndex filename now)
        es) :
    (run (Link.step chunk)
        (Link.requested ul getIndex pIndex filename now)
        es).Delivered (chunk getIndex) := by
  have hRun :=
    run_invariant_along
      (Link.OnTransfer (chunk getIndex) getIndex)
      (fun s e hInv hOk =>
        hInv.step hOk.1.noRestart hOk.2)
      ⟨Link.requested_sync (chunk getIndex) ul getIndex pIndex
        filename now, rfl⟩
      hAlong
  exact hRun.sync.delivered

/- A session in which every reading of the clock is 1. -/
theorem transfer_reliable_first_segment :
    (run (Link.step (fun _ _ => 7))
        (Link.requested Upload.zero 0 0 [] 1)
        [.get 0 true 0 0 (fun _ => 1) (fun _ => 0),
          .data 0 1 1 (fun _ => 0)]).Delivered
      (fun _ => 7) :=
  transfer_reliable (fun _ _ => 7) Upload.zero 0 0 [] 1
    ⟨⟨fun _ => rfl, fun _ => Upload.clockReads_one _⟩,
      ⟨trivial, trivial⟩, trivial⟩

/-
  The clock reads 0 behind segment 2: `ul_send` returns with
  the segment sent and `max_pkt_sent` still 1. Once it
  arrives the downloader is ahead of the uploader.
-/
theorem transfer_overtakes_max_pkt_sent :
    let start := Link.requested Upload.zero 0 0 [] 1
    let es : List LinkEvent :=
      [.get 0 true 0 0 (fun _ => 1) (fun _ => 0),
        .data 0 1 1 (fun _ => 0),
        .ack 0 1 (fun _ => 0) (fun _ => 0),
        .data 1 1 1 (fun _ => 0)]
    Along (Link.step (fun _ _ => 0)) Link.GetOnce start es ∧
      ¬ (run (Link.step (fun _ _ => 0)) start es).Delivered
        (fun _ => 0) := by
  intro start es
  refine ⟨⟨fun _ => rfl, trivial, trivial, trivial, trivial⟩,
    ?_⟩
  intro hDelivered
  have hOpen :
      (run (Link.step (fun _ _ => 0)) start es).ulTransfer ≠
        0 := by
    decide
  have hAhead :
      ¬ (run (Link.step (fun _ _ => 0)) start
            es).dl.rwin.nextSeq - 1 ≤
        (run (Link.step (fun _ _ => 0)) start
          es).ul.maxPktSent := by
    decide +kernel
  exact hAhead (hDelivered.counters hOpen).2

end BtPeer

------------------------------------------------------------
-- Duplicated Requests
------------------------------------------------------------

namespace BtPeer

open EventMachine

namespace Link

/- The downloader asks for one chunk only. -/
def OneTransfer (_ : Link) : LinkEvent → Prop
| .start _ _ _ _ => False
| _ => True

/-
  A GET is admitted only before the first upload, while at
  most one segment was sent, or when the download is over.
-/
def RestartOk (s : Link) : LinkEvent → Prop
| .get _ admitted _ _ _ _ =>
    admitted = true →
      s.downloading = false ∨ s.ulTransfer = 0 ∨
        s.ul.maxPktSent ≤ 1
| _ => True

theorem RestartOk.noRestart
    {s : Link}
    {e : LinkEvent}
    (hRestart : s.RestartOk e)
    (hOne : s.OneTransfer e)
    (hActive : s.downloading = true) :
    s.NoRestart e := by
  cases e with
  | get n admitted pIndex hasIndex ts stack =>
      intro hAdmitted
      rcases hRestart hAdmitted with hOver | hFirst | hLow
      · simp [hActive] at hOver
      · exact Or.inl hFirst
      · exact Or.inr hLow
  | _ => exact hOne

/- While the download is active the two ends agree. -/
structure ActiveTransfer
    (content : Nat → Byte)
    (getIndex : Nat)
    (s : Link) : Prop where
  gets : s.gets = [getIndex]
  sync : s.downloading = true → s.Sync content

theorem ActiveTransfer.step
    {chunk : Nat → Nat → Byte}
    {getIndex : Nat}
    {s : Link}
    (hInv : s.ActiveTransfer (chunk getIndex) getIndex)
    {e : LinkEvent}
    (hOne : s.OneTransfer e)
    (hRestart : s.RestartOk e)
    (hClock : s.ClockOk e) :
    (s.step chunk e).ActiveTransfer (chunk getIndex)
      getIndex := by
  have hNoStart :
      ∀ getIndex pIndex filename now,
        e ≠ .start getIndex pIndex filename now := by
    rintro getIndex pIndex filename now rfl
    exact hOne
  refine ⟨(step_gets chunk s hNoStart).trans hInv.gets, ?_⟩
  intro hActive
  have hWas := step_downloading chunk s hNoStart hActive
  exact sync_step (hInv.sync hWas) hInv.gets
    (hRestart.noRestart hOne hWas) hClock

end Link

/-
  While both sides are active, the cumulative acknowledgement
  of the downloader is one that `ul_handle_ack` takes.
-/
theorem duplicated_get_harmless
    (chunk : Nat → Nat → Byte)
    (ul : Upload)
    (getIndex pIndex : Nat)
    (filename : CString)
    (now : Word)
    {es : List LinkEvent}
    (hAlong :
      Along (Link.step chunk)
        (fun s e =>
          s.OneTransfer e ∧ s.RestartOk e ∧ s.ClockOk e)
        (Link.requested ul getIndex pIndex filename now)
        es) :
    let s :=
      run (Link.step chunk)
        (Link.requested ul getIndex pIndex filename now) es
    s.uploading = true → s.downloading = true →
      s.dl.rwin.nextSeq - 1 ≤ s.ul.maxPktSent ∧
        ¬ (s.ul.maxPktSent < s.dl.rwin.nextSeq - 1 ∨
          s.dl.rwin.nextSeq - 1 < s.ul.lastPktAcked) := by
  intro s hUp hDown
  have hRun :=
    run_invariant_along
      (Link.ActiveTransfer (chunk getIndex) getIndex)
      (fun s e hInv hOk => hInv.step hOk.1 hOk.2.1 hOk.2.2)
      ⟨rfl, fun _ =>
        Link.requested_sync (chunk getIndex) ul getIndex pIndex
          filename now⟩
      hAlong
  have hSync := hRun.sync hDown
  rcases hSync.counters (hSync.mapped hUp).1 with
    ⟨hAcked, hSent⟩
  refine ⟨hSent, ?_⟩
  rintro (hAbove | hBelow)
  · exact BitVec.not_lt.mpr hSent hAbove
  · exact BitVec.not_lt.mpr hAcked hBelow

/- The GET is duplicated before the second segment is sent. -/
theorem duplicated_get_harmless_early :
    let s :=
      run (Link.step (fun _ _ => 7))
        (Link.requested Upload.zero 0 0 [] 1)
        [.get 0 true 0 0 (fun _ => 1) (fun _ => 0),
          .data 0 1 1 (fun _ => 0),
          .get 0 true 0 0 (fun _ => 1) (fun _ => 0)]
    s.dl.rwin.nextSeq - 1 ≤ s.ul.maxPktSent ∧
      ¬ (s.ul.maxPktSent < s.dl.rwin.nextSeq - 1 ∨
        s.dl.rwin.nextSeq - 1 < s.ul.lastPktAcked) :=
  duplicated_get_harmless (fun _ _ => 7) Upload.zero 0 0 [] 1
    ⟨⟨trivial, fun _ => Or.inr (Or.inl rfl),
        fun _ => Upload.clockReads_one _⟩,
      ⟨trivial, trivial, trivial⟩,
      ⟨trivial, fun _ => Or.inr (Or.inr (by decide +kernel)),
        fun _ => Upload.clockReads_one _⟩,
      trivial⟩
    (by decide +kernel) (by decide +kernel)

/-
  The GET is duplicated after segment 3: the upload starts
  again at segment 1, and when segment 2 arrives its
  acknowledgement is an invalid one.
-/
theorem duplicated_get_rejects_ack :
    let start := Link.requested Upload.zero 0 0 [] 1
    let es : List LinkEvent :=
      [.get 0 true 0 0 (fun _ => 1) (fun _ => 0),
        .data 0 1 1 (fun _ => 0),
        .ack 0 1 (fun _ => 1) (fun _ => 0),
        .get 0 true 0 0 (fun _ => 1) (fun _ => 0),
        .data 1 1 1 (fun _ => 0)]
    let s := run (Link.step (fun _ _ => 0)) start es
    Along (Link.step (fun _ _ => 0))
        (fun s e => s.OneTransfer e ∧ s.ClockOk e) start es ∧
      s.uploading = true ∧ s.downloading = true ∧
        s.dl.started = true ∧
        s.ul.maxPktSent < s.dl.rwin.nextSeq - 1 := by
  refine ⟨⟨⟨trivial, fun _ => Upload.clockReads_one _⟩,
      ⟨trivial, trivial⟩,
      ⟨trivial, Upload.clockReads_one _⟩,
      ⟨trivial, fun _ => Upload.clockReads_one _⟩,
      ⟨trivial, trivial⟩, trivial⟩, ?_⟩
  decide +kernel

end BtPeer
