import BtPeer.Transfer.Reliable

/-
  Successive transfers between two peers. Packets carry no
  transfer number, so a late packet of an earlier transfer
  is told from a current one by its sequence number only.

  Key definitions include:
    * `Link.askedFor`
    * `Link.Tagged`
    * `Link.Isolated`
    * `Link.Fenced`

  Key theorems include:
    * `tagged_step`
    * `isolated_step`
    * `session_isolation`
-/

------------------------------------------------------------
-- Transfers And Their Chunks
------------------------------------------------------------

namespace BtPeer

namespace Link

/- The chunk index that the GET of a transfer asked for. -/
def askedFor (gets : List Nat) : Nat → Option Nat
| 0 => none
| n + 1 => gets[n]?

/- The chunks that the downloader asked for so far. -/
def askedChunks
    (chunk : Nat → Nat → Byte)
    (gets : List Nat) : Set (Nat → Byte) :=
  { content | ∃ i ∈ gets, chunk i = content }

theorem askedFor_mem
    {gets : List Nat}
    {t i : Nat}
    (hAsked : askedFor gets t = some i) :
    i ∈ gets := by
  cases t with
  | zero => simp [askedFor] at hAsked
  | succ n => exact List.mem_of_getElem? hAsked

theorem askedFor_le
    {gets : List Nat}
    {t i : Nat}
    (hAsked : askedFor gets t = some i) :
    t ≤ gets.length := by
  cases t with
  | zero => exact Nat.zero_le _
  | succ n =>
      exact (List.getElem?_eq_some_iff.mp hAsked).1

theorem askedFor_append
    {gets : List Nat}
    {t i : Nat}
    (hAsked : askedFor gets t = some i)
    (g : Nat) :
    askedFor (gets ++ [g]) t = some i := by
  cases t with
  | zero => simp [askedFor] at hAsked
  | succ n =>
      have hLt := (List.getElem?_eq_some_iff.mp hAsked).1
      simp only [askedFor]
      rw [List.getElem?_append_left hLt]
      exact hAsked

theorem askedFor_last
    (gets : List Nat)
    (g : Nat) :
    askedFor (gets ++ [g]) (gets ++ [g]).length = some g := by
  simp [askedFor]

/- The packet is a segment of the chunk of transfer `t`. -/
def SegmentOf
    (chunk : Nat → Nat → Byte)
    (gets : List Nat)
    (t : Nat)
    (pkt : Packet) : Prop :=
  ∃ i, askedFor gets t = some i ∧
    CarriesSegment (chunk i) pkt

/-
  Every packet, upload and download belongs to the transfer
  it is recorded with.
-/
structure Tagged
    (chunk : Nat → Nat → Byte)
    (s : Link) : Prop where
  empty : s.gets = [] → s.dl = Download.zero
  active : s.downloading = true → s.gets ≠ []
  index :
    s.gets ≠ [] →
      askedFor s.gets s.dlTransfer = some s.dl.getIndex
  holds :
    s.gets ≠ [] →
      s.dl.Holds (askedChunks chunk s.gets) lastSeq
  datas :
    ∀ d ∈ s.datas, SegmentOf chunk s.gets d.1 d.2
  acks :
    ∀ a ∈ s.acks,
      a.1 ≤ s.dlTransfer ∧
        (a.1 = s.dlTransfer →
          a.2.ack.toNat ≤ s.dl.rwin.nextSeq.toNat - 1)
  session :
    s.uploading = true →
      ∃ i, askedFor s.gets s.ulTransfer = some i ∧
        s.ul.data = some (chunk i) ∧ s.ul.Bounded

/- Nothing of another transfer got into the current one. -/
structure Isolated
    (chunk : Nat → Nat → Byte)
    (s : Link) : Prop where
  holds :
    s.gets ≠ [] →
      s.dl.Holds {chunk s.dl.getIndex} lastSeq
  acked :
    s.uploading = true → s.ulTransfer = s.dlTransfer →
      s.ul.lastPktAcked.toNat ≤
        s.dl.rwin.nextSeq.toNat - 1

theorem idle_tagged
    (chunk : Nat → Nat → Byte)
    (ul : Upload) :
    (idle ul).Tagged chunk := by
  constructor <;> simp [idle]

theorem idle_isolated
    (chunk : Nat → Nat → Byte)
    (ul : Upload) :
    (idle ul).Isolated chunk := by
  constructor <;> simp [idle]

end Link

end BtPeer

------------------------------------------------------------
-- Steps Of The Uploader
------------------------------------------------------------

namespace BtPeer

namespace Link

/- What an upload sends belongs to the upload's transfer. -/
theorem Tagged.sendData
    {chunk : Nat → Nat → Byte}
    {s : Link}
    (hTagged : s.Tagged chunk)
    {ts : Word → Word}
    {ul₁ ul₂ ul₃ : Upload}
    {sent : List PktParam}
    (hEffect : ul₁.SendEffect ts ul₂ sent)
    {t i : Nat}
    (hAsked : askedFor s.gets t = some i)
    (hData : ul₁.data = some (chunk i))
    {up : Bool}
    (hKept : ul₃ = ul₂ ∨ (up = false ∧ ul₃ = ulDeinit ul₂))
    (stack : Nat → Byte) :
    ({ s with
        uploading := up
        ul := ul₃
        ulTransfer := t }.sendData stack sent).Tagged
          chunk where
  empty := hTagged.empty
  active := hTagged.active
  index := hTagged.index
  holds := hTagged.holds
  acks := hTagged.acks
  datas := by
    intro d hMem
    rcases List.mem_append.mp hMem with hOld | hNew
    · exact hTagged.datas d hOld
    · rcases List.mem_map.mp hNew with ⟨pkt, hPkt, rfl⟩
      have hCarries :=
        emit_segments stack hData (P := fun _ => True)
          (fun pp hPP => by
            rcases hEffect.segments pp hPP with
              ⟨seq, hSeg, hFirst, hLast, _⟩
            exact ⟨seq, hSeg, hFirst, hLast, trivial⟩)
          hPkt
      exact ⟨i, hAsked, hCarries.1⟩
  session := by
    intro hUp
    rcases hKept with rfl | ⟨hDown, _⟩
    · exact ⟨i, hAsked, hEffect.data.trans hData,
        hEffect.bounded⟩
    · exact absurd (hUp.symm.trans hDown) (by simp)

/- The acknowledged part of an upload after it sent. -/
theorem Isolated.sendData
    {chunk : Nat → Nat → Byte}
    {s : Link}
    (hIsolated : s.Isolated chunk)
    {ts : Word → Word}
    {ul₁ ul₂ ul₃ : Upload}
    {sent : List PktParam}
    (hEffect : ul₁.SendEffect ts ul₂ sent)
    {t : Nat}
    (hAcked :
      t = s.dlTransfer →
        ul₁.lastPktAcked.toNat ≤
          s.dl.rwin.nextSeq.toNat - 1)
    {up : Bool}
    (hKept : ul₃ = ul₂ ∨ (up = false ∧ ul₃ = ulDeinit ul₂))
    (stack : Nat → Byte) :
    ({ s with
        uploading := up
        ul := ul₃
        ulTransfer := t }.sendData stack sent).Isolated
          chunk where
  holds := hIsolated.holds
  acked := by
    intro hUp hCurrent
    rcases hKept with rfl | ⟨hDown, _⟩
    · change
        ul₃.lastPktAcked.toNat ≤
          s.dl.rwin.nextSeq.toNat - 1
      rw [hEffect.lastPktAcked]
      exact hAcked hCurrent
    · exact absurd (hUp.symm.trans hDown) (by simp)

end Link

end BtPeer

------------------------------------------------------------
-- Steps Of The Downloader
------------------------------------------------------------

namespace BtPeer

namespace Link

/- What a download sends belongs to the last transfer. -/
theorem Tagged.sendAck
    {chunk : Nat → Nat → Byte}
    {s : Link}
    (hTagged : s.Tagged chunk)
    {dl : Download}
    {sent : List PktParam}
    (hAsked : s.gets ≠ [])
    (hHolds : dl.Holds (askedChunks chunk s.gets) lastSeq)
    (hTarget : s.dl.SameTarget dl)
    (hNext :
      s.dl.rwin.nextSeq.toNat ≤ dl.rwin.nextSeq.toNat)
    (hAcks : AcksOf dl sent)
    (down : Bool)
    (stack : Nat → Byte) :
    ({ s with dl := dl, downloading := down }.sendAck stack
      sent).Tagged chunk where
  empty := fun hEmpty => absurd hEmpty hAsked
  active := fun _ => hAsked
  index := by
    intro _
    change askedFor s.gets s.dlTransfer = some dl.getIndex
    rw [hTarget.getIndex]
    exact hTagged.index hAsked
  holds := fun _ => hHolds
  datas := hTagged.datas
  acks := by
    intro a hMem
    rcases List.mem_append.mp hMem with hOld | hNew
    · rcases hTagged.acks a hOld with ⟨hTag, hAck⟩
      refine ⟨hTag, fun hCurrent => ?_⟩
      exact Nat.le_trans (hAck hCurrent)
        (Nat.sub_le_sub_right hNext 1)
    · rcases List.mem_map.mp hNew with ⟨pkt, hPkt, rfl⟩
      have hCarried := emit_acks stack hAcks hPkt
      have hLow := hHolds.low
      refine ⟨Nat.le_refl _, fun _ => ?_⟩
      rw [hCarried.ack]
      change
        (dl.rwin.nextSeq - 1).toNat ≤
          dl.rwin.nextSeq.toNat - 1
      bv_omega
  session := hTagged.session

theorem Isolated.sendAck
    {chunk : Nat → Nat → Byte}
    {s : Link}
    (hIsolated : s.Isolated chunk)
    {dl : Download}
    {sent : List PktParam}
    (hHolds : dl.Holds {chunk s.dl.getIndex} lastSeq)
    (hTarget : s.dl.SameTarget dl)
    (hNext :
      s.dl.rwin.nextSeq.toNat ≤ dl.rwin.nextSeq.toNat)
    (down : Bool)
    (stack : Nat → Byte) :
    ({ s with dl := dl, downloading := down }.sendAck stack
      sent).Isolated chunk where
  holds := by
    intro _
    change dl.Holds {chunk dl.getIndex} lastSeq
    rw [hTarget.getIndex]
    exact hHolds
  acked := by
    intro hUp hCurrent
    exact Nat.le_trans (hIsolated.acked hUp hCurrent)
      (Nat.sub_le_sub_right hNext 1)

/- A new download starts with nothing received. -/
theorem tagged_onStart
    {chunk : Nat → Nat → Byte}
    {s : Link}
    (hTagged : s.Tagged chunk)
    (getIndex pIndex : Nat)
    (filename : CString)
    (now : Word) :
    (s.onStart getIndex pIndex filename now).Tagged chunk := by
  unfold onStart
  split
  · exact hTagged
  · refine ⟨by simp, by simp, ?_, ?_, ?_, ?_, ?_⟩
    · intro _
      exact askedFor_last s.gets getIndex
    · intro _
      exact (dlInit_holds _ now pIndex getIndex filename).mono
        (Nat.zero_le _) (Nat.le_refl _)
    · intro d hMem
      rcases hTagged.datas d hMem with ⟨i, hAsked, hCarries⟩
      exact ⟨i, askedFor_append hAsked getIndex, hCarries⟩
    · intro a hMem
      have hTag := (hTagged.acks a hMem).1
      simp only [dlTransfer] at hTag ⊢
      simp only [List.length_append, List.length_singleton]
      exact ⟨by omega, fun h => by omega⟩
    · intro hUp
      rcases hTagged.session hUp with ⟨i, hAsked, hRest⟩
      exact ⟨i, askedFor_append hAsked getIndex, hRest⟩

theorem isolated_onStart
    {chunk : Nat → Nat → Byte}
    {s : Link}
    (hTagged : s.Tagged chunk)
    (hIsolated : s.Isolated chunk)
    (getIndex pIndex : Nat)
    (filename : CString)
    (now : Word) :
    (s.onStart getIndex pIndex filename now).Isolated
      chunk := by
  unfold onStart
  split
  · exact hIsolated
  · refine ⟨?_, ?_⟩
    · intro _
      exact (dlInit_holds _ now pIndex getIndex filename).mono
        (Nat.zero_le _) (Nat.le_refl _)
    · intro hUp hCurrent
      rcases hTagged.session hUp with ⟨i, hAsked, _⟩
      have hLe := askedFor_le hAsked
      simp only [dlTransfer, List.length_append,
        List.length_singleton] at hCurrent
      omega

end Link

end BtPeer

------------------------------------------------------------
-- Every Step
------------------------------------------------------------

namespace BtPeer

namespace Link

/-
  Nothing of another transfer is taken in. A DATA packet of
  another transfer is not new to the download, and an ACK of
  another transfer is invalid, old, or no more than what the
  download acknowledges.
-/
def Fenced (s : Link) : LinkEvent → Prop
| .data n _ _ _ =>
    ∀ t pkt, s.datas[n]? = some (t, pkt) →
      t ≠ s.dlTransfer → s.downloading = true →
        ¬ Accepts s.dl pkt
| .ack n _ _ _ =>
    ∀ t pkt, s.acks[n]? = some (t, pkt) →
      t ≠ s.ulTransfer → s.ulTransfer = s.dlTransfer →
      s.uploading = true →
        s.ul.maxPktSent < pkt.ack ∨
          pkt.ack ≤ s.ul.lastPktAcked ∨
            pkt.ack ≤ s.dl.rwin.nextSeq - 1
| _ => True

theorem tagged_onData
    {chunk : Nat → Nat → Byte}
    {s : Link}
    (hTagged : s.Tagged chunk)
    {t : Nat}
    {pkt : Packet}
    (hMem : (t, pkt) ∈ s.datas)
    (now ts : Word)
    (stack : Nat → Byte) :
    (s.onData pkt now ts stack).Tagged chunk := by
  unfold onData
  split
  · rename_i hDown
    have hAsked := hTagged.active hDown
    rcases hTagged.datas _ hMem with ⟨i, hIndex, hSegment⟩
    have hNew :
        ∃ content ∈ askedChunks chunk s.gets,
          CarriesSegment content pkt ∧
            pkt.seq.toNat ≤ lastSeq :=
      ⟨chunk i, ⟨i, askedFor_mem hIndex, rfl⟩, hSegment,
        hSegment.last⟩
    rcases dlRecv_holds (hTagged.holds hAsked)
        hSegment.dataLen (fun _ => hNew) now ts with
      ⟨hHolds, hNext, hAcks⟩
    exact hTagged.sendAck hAsked hHolds
      (dlRecv_sameTarget now ts s.dl pkt) hNext hAcks _ stack
  · exact hTagged

theorem tagged_step
    {chunk : Nat → Nat → Byte}
    {s : Link}
    (hTagged : s.Tagged chunk)
    (e : LinkEvent) :
    (s.step chunk e).Tagged chunk := by
  cases e with
  | start getIndex pIndex filename now =>
      exact tagged_onStart hTagged getIndex pIndex filename now
  | get n admitted pIndex hasIndex ts stack =>
      simp only [step]
      split
      · rename_i i hFound
        have hEffect :=
          ulSend_effect ts
            (ulInit_bounded pIndex hasIndex (some (chunk i)))
        have hAsked : askedFor s.gets (n + 1) = some i :=
          hFound
        exact hTagged.sendData hEffect hAsked rfl
          (Or.inl rfl) stack
      · exact hTagged
  | data n now ts stack =>
      simp only [step]
      split
      · rename_i t pkt hFound
        exact tagged_onData hTagged
          (List.mem_of_getElem? hFound) now ts stack
      · exact hTagged
  | ack n now ts stack =>
      simp only [step]
      split
      · rename_i t pkt hFound
        unfold onAck
        split
        · rename_i hUp
          rcases hTagged.session hUp with
            ⟨i, hAsked, hData, hBounded⟩
          have hHandled :=
            ulHandleAck_effect now s.ul pkt.ack
          exact hTagged.sendData
            (ulSend_effect ts (hHandled.bounded hBounded))
            hAsked (hHandled.data.trans hData)
            (onAck_kept _) stack
        · exact hTagged
      · exact hTagged
  | dlTimeout now ts stack =>
      simp only [step, onDlTimeout]
      split
      · rename_i hDown
        have hAsked := hTagged.active hDown
        rcases dlCheckTimeout_holds (hTagged.holds hAsked)
            now ts with
          ⟨hHolds, hNext, hAcks⟩
        exact hTagged.sendAck hAsked hHolds
          (dlCheckTimeout_sameTarget now ts s.dl) hNext hAcks _
          stack
      · exact hTagged
  | ulTimeout now ts stack =>
      simp only [step, onUlTimeout]
      split
      · rename_i hUp
        rcases hTagged.session hUp with
          ⟨i, hAsked, hData, hBounded⟩
        exact hTagged.sendData
          (ulCheckTimeout_effect now ts hBounded) hAsked hData
          (onUlTimeout_kept _ _) stack
      · exact hTagged
  | dlEnd =>
      exact ⟨hTagged.empty, by simp [step], hTagged.index,
        hTagged.holds, hTagged.datas, hTagged.acks,
        hTagged.session⟩
  | ulEnd =>
      exact ⟨hTagged.empty, hTagged.active, hTagged.index,
        hTagged.holds, hTagged.datas, hTagged.acks,
        by simp [step]⟩

/- A DATA packet of another transfer is not taken in. -/
theorem isolated_onData
    {chunk : Nat → Nat → Byte}
    {s : Link}
    (hTagged : s.Tagged chunk)
    (hIsolated : s.Isolated chunk)
    {t : Nat}
    {pkt : Packet}
    (hMem : (t, pkt) ∈ s.datas)
    (hFence :
      t ≠ s.dlTransfer → s.downloading = true →
        ¬ Accepts s.dl pkt)
    (now ts : Word)
    (stack : Nat → Byte) :
    (s.onData pkt now ts stack).Isolated chunk := by
  unfold onData
  split
  · rename_i hDown
    have hAsked := hTagged.active hDown
    rcases hTagged.datas _ hMem with ⟨i, hIndex, hSegment⟩
    have hNew :
        Accepts s.dl pkt →
          ∃ content ∈ ({chunk s.dl.getIndex} :
              Set (Nat → Byte)),
            CarriesSegment content pkt ∧
              pkt.seq.toNat ≤ lastSeq := by
      intro hAccepts
      have hCurrent : t = s.dlTransfer := by
        by_contra hOther
        exact hFence hOther hDown hAccepts
      subst hCurrent
      have hSame :=
        hIndex.symm.trans (hTagged.index hAsked)
      cases hSame
      exact ⟨_, rfl, hSegment, hSegment.last⟩
    rcases dlRecv_holds (hIsolated.holds hAsked)
        hSegment.dataLen hNew now ts with
      ⟨hHolds, hNext, _⟩
    exact hIsolated.sendAck hHolds
      (dlRecv_sameTarget now ts s.dl pkt) hNext _ stack
  · exact hIsolated

/- An ACK of another transfer acknowledges nothing new. -/
theorem isolated_onAck
    {chunk : Nat → Nat → Byte}
    {s : Link}
    (hTagged : s.Tagged chunk)
    (hIsolated : s.Isolated chunk)
    {t : Nat}
    {pkt : Packet}
    (hMem : (t, pkt) ∈ s.acks)
    (hFence :
      t ≠ s.ulTransfer → s.ulTransfer = s.dlTransfer →
        s.uploading = true →
          s.ul.maxPktSent < pkt.ack ∨
            pkt.ack ≤ s.ul.lastPktAcked ∨
              pkt.ack ≤ s.dl.rwin.nextSeq - 1)
    (now : Word)
    (ts : Word → Word)
    (stack : Nat → Byte) :
    (s.onAck pkt now ts stack).Isolated chunk := by
  unfold onAck
  split
  · rename_i hUp
    rcases hTagged.session hUp with
      ⟨i, hAsked, hData, hBounded⟩
    have hHandled := ulHandleAck_effect now s.ul pkt.ack
    refine hIsolated.sendData
      (ulSend_effect ts (hHandled.bounded hBounded)) ?_
      (onAck_kept _) stack
    intro hCurrent
    have hOld := hIsolated.acked hUp hCurrent
    rcases hHandled.acked with
      ⟨hSame, _⟩ | ⟨hNew, hSent, _, hLater⟩
    · rw [hSame]
      exact hOld
    · rw [hNew]
      by_cases hTag : t = s.ulTransfer
      · exact
          (hTagged.acks _ hMem).2 (hTag.trans hCurrent)
      · have hLow :=
          (hTagged.holds
            (List.ne_nil_of_mem (askedFor_mem hAsked))).low
        have hFenced := hFence hTag hCurrent hUp
        simp only [BitVec.lt_def, BitVec.le_def]
          at hFenced hSent hLater
        bv_omega
  · exact hIsolated

theorem isolated_step
    {chunk : Nat → Nat → Byte}
    {s : Link}
    (hTagged : s.Tagged chunk)
    (hIsolated : s.Isolated chunk)
    {e : LinkEvent}
    (hFenced : s.Fenced e) :
    (s.step chunk e).Isolated chunk := by
  cases e with
  | start getIndex pIndex filename now =>
      exact isolated_onStart hTagged hIsolated getIndex pIndex
        filename now
  | get n admitted pIndex hasIndex ts stack =>
      simp only [step]
      split
      · rename_i i hFound
        have hEffect :=
          ulSend_effect ts
            (ulInit_bounded pIndex hasIndex (some (chunk i)))
        exact hIsolated.sendData hEffect
          (fun _ => Nat.zero_le _) (Or.inl rfl) stack
      · exact hIsolated
  | data n now ts stack =>
      simp only [step]
      split
      · rename_i t pkt hFound
        exact isolated_onData hTagged hIsolated
          (List.mem_of_getElem? hFound) (hFenced t pkt hFound)
          now ts stack
      · exact hIsolated
  | ack n now ts stack =>
      simp only [step]
      split
      · rename_i t pkt hFound
        exact isolated_onAck hTagged hIsolated
          (List.mem_of_getElem? hFound) (hFenced t pkt hFound)
          now ts stack
      · exact hIsolated
  | dlTimeout now ts stack =>
      simp only [step, onDlTimeout]
      split
      · rename_i hDown
        have hAsked := hTagged.active hDown
        rcases dlCheckTimeout_holds (hIsolated.holds hAsked)
            now ts with
          ⟨hHolds, hNext, _⟩
        exact hIsolated.sendAck hHolds
          (dlCheckTimeout_sameTarget now ts s.dl) hNext _ stack
      · exact hIsolated
  | ulTimeout now ts stack =>
      simp only [step, onUlTimeout]
      split
      · rename_i hUp
        rcases hTagged.session hUp with
          ⟨i, hAsked, hData, hBounded⟩
        exact hIsolated.sendData
          (ulCheckTimeout_effect now ts hBounded)
          (hIsolated.acked hUp) (onUlTimeout_kept _ _) stack
      · exact hIsolated
  | dlEnd => exact ⟨hIsolated.holds, hIsolated.acked⟩
  | ulEnd => exact ⟨hIsolated.holds, by simp [step]⟩

end Link

end BtPeer

------------------------------------------------------------
-- Isolation Of Successive Transfers
------------------------------------------------------------

namespace BtPeer

open EventMachine

namespace Link

/- Nothing is received before the first download. -/
theorem not_received_zero
    (seq : Word) :
    ¬ Received Download.zero seq := by
  rintro (⟨_, hBelow⟩ | ⟨_, hExist⟩)
  · simp [Download.zero] at hBelow
  · simp [Download.zero, seqExistIn, bmIsset] at hExist

theorem Tagged.received
    {chunk : Nat → Nat → Byte}
    {s : Link}
    (hTagged : s.Tagged chunk)
    {seq : Word}
    (hReceived : Received s.dl seq) :
    s.gets ≠ [] := by
  intro hEmpty
  rw [hTagged.empty hEmpty] at hReceived
  exact not_received_zero seq hReceived

theorem run_tagged
    (chunk : Nat → Nat → Byte)
    (ul : Upload)
    (es : List LinkEvent) :
    (run (Link.step chunk) (idle ul) es).Tagged chunk :=
  run_invariant (Tagged chunk)
    (fun _ e hTagged => tagged_step hTagged e)
    (idle_tagged chunk ul) es

theorem run_isolated
    (chunk : Nat → Nat → Byte)
    (ul : Upload)
    {es : List LinkEvent}
    (hFenced : Along (Link.step chunk) Fenced (idle ul) es) :
    (run (Link.step chunk) (idle ul) es).Isolated chunk := by
  have hBoth :=
    run_invariant_along
      (fun s => s.Tagged chunk ∧ s.Isolated chunk)
      (fun _ e hInv hOk =>
        ⟨tagged_step hInv.1 e, isolated_step hInv.1 hInv.2 hOk⟩)
      ⟨idle_tagged chunk ul, idle_isolated chunk ul⟩ hFenced
  exact hBoth.2

end Link

/-
  In every run, what the download received are segments of
  chunks that were asked for, each at its own place. While no
  packet of another transfer is taken in, they are segments
  of its own chunk and its upload is not ahead of it.
-/
theorem session_isolation
    (chunk : Nat → Nat → Byte)
    (ul : Upload)
    (es : List LinkEvent) :
    let s := run (Link.step chunk) (Link.idle ul) es
    (∀ seq, Received s.dl seq →
      ∃ i ∈ s.gets,
        BlockStored (chunk i) s.dl.buffer seq.toNat) ∧
      (Along (Link.step chunk) Link.Fenced (Link.idle ul) es →
        (s.uploading = true → s.downloading = true →
          s.ulTransfer = s.dlTransfer →
            s.ul.lastPktAcked ≤ s.dl.rwin.nextSeq - 1) ∧
          ∀ seq, Received s.dl seq →
            BlockStored (chunk s.dl.getIndex) s.dl.buffer
              seq.toNat) := by
  intro s
  have hTagged : s.Tagged chunk := Link.run_tagged chunk ul es
  refine ⟨?_, ?_⟩
  · intro seq hReceived
    rcases (hTagged.holds (hTagged.received hReceived)).received
        hReceived with
      ⟨_, ⟨i, hMem, rfl⟩, hStored⟩
    exact ⟨i, hMem, hStored⟩
  · intro hFenced
    have hIsolated : s.Isolated chunk :=
      Link.run_isolated chunk ul hFenced
    refine ⟨?_, ?_⟩
    · intro hUp hDown hCurrent
      have hAcked := hIsolated.acked hUp hCurrent
      have hLow :=
        (hIsolated.holds (hTagged.active hDown)).low
      rw [BitVec.le_def]
      bv_omega
    · intro seq hReceived
      rcases
          (hIsolated.holds
            (hTagged.received hReceived)).received
            hReceived with
        ⟨_, rfl, hStored⟩
      exact hStored

/-
  The chunk with index `i` is filled with the byte `i`. The
  DATA of transfer 1 arrives behind the one of transfer 2.
-/
theorem session_isolation_late_data :
    let chunk : Nat → Nat → Byte := fun i _ => BitVec.ofNat 8 i
    let es : List LinkEvent :=
      [.start 0 0 [] 1,
        .get 0 true 0 0 (fun _ => 1) (fun _ => 0), .dlEnd,
        .start 1 0 [] 1,
        .get 1 true 0 0 (fun _ => 1) (fun _ => 0),
        .data 1 1 1 (fun _ => 0), .data 0 1 1 (fun _ => 0)]
    let s := run (Link.step chunk) (Link.idle Upload.zero) es
    ∀ seq, Received s.dl seq →
      BlockStored (chunk s.dl.getIndex) s.dl.buffer
        seq.toNat := by
  intro chunk es
  refine
    ((session_isolation chunk Upload.zero es).2
      ⟨trivial, trivial, trivial, trivial, trivial, ?_, ?_,
        trivial⟩).2
  · intro t pkt hFound hOther
    have hTag : some 2 = some t :=
      Eq.trans (by decide +kernel)
        (congrArg (Option.map Prod.fst) hFound)
    have hLast : t = 2 := (Option.some.inj hTag).symm
    subst hLast
    exact absurd (by decide +kernel) hOther
  · intro t pkt hFound _ _ hAccepts
    have hSeq : some 1 = some pkt.seq :=
      Eq.trans (by decide +kernel)
        (congrArg (Option.map (fun d => d.2.seq)) hFound)
    have hFit := hAccepts.2.1
    rw [← Option.some.inj hSeq] at hFit
    revert hFit
    decide +kernel

/-
  Transfer 1 is given up after six timeouts. Its DATA packet
  arrives late, is new to transfer 2, and is stored there.
-/
theorem late_data_corrupts_transfer :
    let chunk : Nat → Nat → Byte := fun i _ => BitVec.ofNat 8 i
    let late : Nat → LinkEvent := fun k =>
      .dlTimeout (BitVec.ofNat 32 (1 + 6000 * k))
        (BitVec.ofNat 32 (1 + 6000 * k)) (fun _ => 0)
    let es : List LinkEvent :=
      [.start 0 0 [] 1,
        .get 0 true 0 0 (fun _ => 1) (fun _ => 0),
        late 1, late 2, late 3, late 4, late 5, late 6,
        .start 1 0 [] 1, .data 0 1 1 (fun _ => 0)]
    let s := run (Link.step chunk) (Link.idle Upload.zero) es
    s.gets = [0, 1] ∧ s.downloading = true ∧
      Received s.dl 1 ∧
      ¬ BlockStored (chunk s.dl.getIndex) s.dl.buffer 1 := by
  intro chunk late es s
  refine ⟨by decide +kernel, by decide +kernel, Or.inl ?_, ?_⟩
  · decide +kernel
  · intro hStored
    have hByte := hStored 0 (by decide)
    revert hByte
    decide +kernel

end BtPeer
