import BtPeer.Packet.HashPacket
import BtPeer.Server.Events
import BtPeer.Transfer.Sequence
import BtPeer.Transfer.Timer

/-
  Every upload of the server is a run of one started upload:
  what is known about such runs holds of every peer that the
  server is uploading to, in every run of the server.

  Key definitions include:
    * `segmentNumbers`
    * `ServerEvent.ulEvent`
    * `UploadStep`
    * `PeerServer.Uploads`
    * `RunOf`

  Key theorems include:
    * `step_upload`
    * `run_uploads`
    * `uploads_are_runs`
    * `uploads_safe`
    * `uploads_never_stall`
-/

------------------------------------------------------------
-- Segments Sent To A Peer
------------------------------------------------------------

namespace BtPeer

/-
  The numbers of the DATA packets for peer `p`, in the order
  in which they were sent.
-/
def segmentNumbers
    (p : Nat)
    (out : List Datagram) : List Word :=
  (out.filter
    (fun d =>
      d.dest = p ∧ d.pkt.type = PacketType.data.code)).map
    (fun d => d.pkt.seq)

theorem segmentNumbers_append
    (p : Nat)
    (out out' : List Datagram) :
    segmentNumbers p (out ++ out') =
      segmentNumbers p out ++ segmentNumbers p out' := by
  simp only [segmentNumbers, List.filter_append,
    List.map_append]

section

variable (getchunks : ChunkList)
variable (peerCount : Nat)
variable (stack : Nat → Byte)
variable (p : Nat)

/- Packets of the other types carry no segment. -/
theorem segmentNumbers_of_type
    {pp : PktParam}
    (hType : pp.type ≠ .data) :
    segmentNumbers p
      (sendPacket getchunks peerCount stack pp) = [] := by
  unfold segmentNumbers
  rw [List.map_eq_nil_iff, List.filter_eq_nil_iff]
  intro d hMem
  rcases List.mem_flatMap.mp hMem with ⟨pkt, hPkt, hSent⟩
  rcases List.mem_map.mp hSent with ⟨i, _, rfl⟩
  have hCode := buildPackets_type stack pkt hPkt
  have hOther : pp.type.code ≠ PacketType.data.code := by
    intro hSame
    apply hType
    revert hSame
    cases pp.type <;> decide
  rw [decide_eq_true_eq]
  rintro ⟨_, hData⟩
  exact hOther (hCode.symm.trans hData)

theorem segmentNumbers_of_types
    {pps : List PktParam}
    (hTypes : ∀ pp ∈ pps, pp.type ≠ .data) :
    segmentNumbers p
      (pps.flatMap
        (sendPacket getchunks peerCount stack)) = [] := by
  induction pps with
  | nil => rfl
  | cons pp pps ih =>
      rw [List.flatMap_cons, segmentNumbers_append,
        segmentNumbers_of_type getchunks peerCount stack p
          (hTypes pp List.mem_cons_self),
        ih (fun other hMem =>
          hTypes other (List.mem_cons_of_mem pp hMem))]
      rfl

/- The one packet of a call for a segment. -/
theorem buildPackets_segment
    (ul : Upload)
    (seq : Word) :
    ∃ pkt,
      buildPackets getchunks stack (ul.segment seq) = [pkt] ∧
        pkt.type = PacketType.data.code ∧ pkt.seq = seq := by
  cases hData : ul.data with
  | none =>
      have hIndex : ¬ ((ul.pIndex : Int) < 0) := by omega
      refine
        ⟨setHeader (ul.segment seq) (stackPacket stack), ?_,
          rfl, rfl⟩
      simp [buildPackets, Upload.segment, hData, dataParam,
        PktParam.clear, PktParam.nondata, plainPacket, hIndex]
  | some content =>
      refine
        ⟨segmentPacket stack seq
          (fun i =>
            content ((seq - 1).toNat * payloadSize + i)), ?_,
          rfl, rfl⟩
      rw [Upload.segment, hData, Option.map_some]
      exact buildPackets_data getchunks stack ul.pIndex seq _

/- A segment goes to the peer of its upload. -/
theorem segmentNumbers_segment
    (ul : Upload)
    (seq : Word) :
    segmentNumbers p
        (sendPacket getchunks peerCount stack
          (ul.segment seq)) =
      if ul.pIndex = p then [seq] else [] := by
  rcases buildPackets_segment getchunks stack ul seq with
    ⟨pkt, hBuilt, hType, hSeq⟩
  have hSent :
      sendPacket getchunks peerCount stack (ul.segment seq) =
        [⟨ul.pIndex, pkt⟩] := by
    unfold sendPacket
    rw [hBuilt]
    rfl
  rw [hSent, segmentNumbers]
  by_cases hPeer : ul.pIndex = p
  · simp [hPeer, hType, hSeq]
  · simp [hPeer]

theorem segmentNumbers_segments
    {ul : Upload}
    {sent : List PktParam}
    (hSegments : ul.SegmentsOf sent) :
    segmentNumbers p
        (sent.flatMap
          (sendPacket getchunks peerCount stack)) =
      if ul.pIndex = p then sent.map (fun pp => pp.seq)
      else [] := by
  induction sent with
  | nil => simp [segmentNumbers]
  | cons pp sent ih =>
      have hRest : ul.SegmentsOf sent :=
        fun other hMem =>
          hSegments other (List.mem_cons_of_mem pp hMem)
      rcases hSegments pp List.mem_cons_self with ⟨seq, rfl⟩
      rw [List.flatMap_cons, segmentNumbers_append, ih hRest,
        segmentNumbers_segment]
      by_cases hPeer : ul.pIndex = p
      · rw [if_pos hPeer, if_pos hPeer, if_pos hPeer]
        rfl
      · rw [if_neg hPeer, if_neg hPeer, if_neg hPeer]
        rfl

end

end BtPeer

------------------------------------------------------------
-- Steps That Leave An Upload Alone
------------------------------------------------------------

namespace BtPeer

open PeerServer

/-
  The upload to peer `p` is as it was, and no segment was
  sent to the peer.
-/
structure SameUpload
    (p : Nat)
    (s s' : PeerServer) : Prop where
  uploading :
    (s'.peer p).isUploading = (s.peer p).isUploading
  ul : (s'.peer p).ul = (s.peer p).ul
  segments :
    segmentNumbers p s'.sent = segmentNumbers p s.sent

namespace SameUpload

variable {p : Nat}
variable {s s' s'' : PeerServer}

theorem refl
    (p : Nat)
    (s : PeerServer) : SameUpload p s s :=
  ⟨rfl, rfl, rfl⟩

theorem trans
    (hSame : SameUpload p s s')
    (hSame' : SameUpload p s' s'') :
    SameUpload p s s'' where
  uploading := hSame'.uploading.trans hSame.uploading
  ul := hSame'.ul.trans hSame.ul
  segments := hSame'.segments.trans hSame.segments

/- Only the upload of peer `p` matters. -/
theorem setPeer
    (hSame : SameUpload p s s')
    {q : Nat}
    {pr : Peer}
    (hUpload :
      q = p →
        pr.isUploading = (s'.peer p).isUploading ∧
          pr.ul = (s'.peer p).ul) :
    SameUpload p s (s'.setPeer q pr) := by
  by_cases hq : p = q
  · rcases hUpload hq.symm with ⟨hUploading, hUl⟩
    refine ⟨?_, ?_, hSame.segments⟩
    · rw [setPeer_peer, if_pos hq, hUploading]
      exact hSame.uploading
    · rw [setPeer_peer, if_pos hq, hUl]
      exact hSame.ul
  · refine ⟨?_, ?_, hSame.segments⟩
    · rw [setPeer_peer, if_neg hq]
      exact hSame.uploading
    · rw [setPeer_peer, if_neg hq]
      exact hSame.ul

theorem send
    (hSame : SameUpload p s s')
    (env : Env)
    {pp : PktParam}
    (hType : pp.type ≠ .data) :
    SameUpload p s (s'.send env pp) := by
  refine ⟨hSame.uploading, hSame.ul, ?_⟩
  simp only [PeerServer.send, segmentNumbers_append,
    segmentNumbers_of_type _ _ _ p hType, List.append_nil]
  exact hSame.segments

theorem sendAll
    (hSame : SameUpload p s s')
    (env : Env)
    {pps : List PktParam}
    (hTypes : ∀ pp ∈ pps, pp.type ≠ .data) :
    SameUpload p s (s'.sendAll env pps) := by
  refine ⟨hSame.uploading, hSame.ul, ?_⟩
  simp only [PeerServer.sendAll, segmentNumbers_append,
    segmentNumbers_of_types _ _ _ p hTypes, List.append_nil]
  exact hSame.segments

/- The segments of another upload. -/
theorem sendSegments
    (hSame : SameUpload p s s')
    (env : Env)
    {ul : Upload}
    {sent : List PktParam}
    (hSegments : ul.SegmentsOf sent)
    (hOther : ul.pIndex ≠ p) :
    SameUpload p s (s'.sendAll env sent) := by
  refine ⟨hSame.uploading, hSame.ul, ?_⟩
  simp only [PeerServer.sendAll, segmentNumbers_append,
    segmentNumbers_segments _ _ _ p hSegments, if_neg hOther,
    List.append_nil]
  exact hSame.segments

end SameUpload

theorem Download.AcksTo.types
    {dl : Download}
    {sent : List PktParam}
    (hAcks : dl.AcksTo sent) :
    ∀ pp ∈ sent, pp.type ≠ .data := by
  intro pp hMem
  rcases hAcks pp hMem with ⟨ack, rfl⟩
  intro hType
  cases hType

theorem sendWhohas_sameUpload
    (env : Env)
    (s : PeerServer)
    (p : Nat) :
    SameUpload p s (sendWhohas env s) :=
  (SameUpload.refl p s).send env (by intro hType; cases hType)

theorem sendIhave_sameUpload
    (env : Env)
    (s : PeerServer)
    (pkt : Packet)
    (p q : Nat) :
    SameUpload p s (sendIhave env s pkt q) := by
  have hSame := SameUpload.refl p s
  simp only [sendIhave]
  split
  · exact ⟨hSame.uploading, hSame.ul, hSame.segments⟩
  · apply SameUpload.send _ env (by intro h; cases h)
    exact ⟨hSame.uploading, hSame.ul, hSame.segments⟩

/- `try_send_get` works on the download side of a peer. -/
theorem trySendGet_sameUpload
    (env : Env)
    (s : PeerServer)
    (p q : Nat) :
    SameUpload p s (trySendGet env s q) := by
  unfold trySendGet
  split
  · rename_i s' getIndex hFound
    have hSearch : SameUpload p s s' := by
      unfold findUnfetchedChunk at hFound
      split at hFound <;> cases hFound
      apply (SameUpload.refl p s).setPeer
      rintro rfl
      exact ⟨rfl, rfl⟩
    have hFetching :
        SameUpload p s (s'.setState getIndex .fetching) :=
      hSearch.trans ⟨rfl, rfl, rfl⟩
    have hGet : SameUpload p s (sendGet env s' q getIndex) :=
      hFetching.send env (by intro h; cases h)
    have hMarked :
        SameUpload p s
          ((sendGet env s' q getIndex).setPeer q
            { (sendGet env s' q getIndex).peer q with
              isDownloading := true }) := by
      apply hGet.setPeer
      rintro rfl
      exact ⟨rfl, rfl⟩
    refine SameUpload.trans (hMarked.setPeer ?_)
      ⟨rfl, rfl, rfl⟩
    rintro rfl
    exact ⟨rfl, rfl⟩
  · rename_i s' hNone
    unfold findUnfetchedChunk at hNone
    split at hNone <;> cases hNone
    exact SameUpload.refl p s

theorem refreshLoop_sameUpload
    (env : Env)
    (p k i : Nat)
    (s : PeerServer) :
    SameUpload p s (refreshLoop env k i s) := by
  induction k generalizing i s with
  | zero => exact SameUpload.refl p s
  | succ k ih =>
      simp only [refreshLoop]
      split
      · exact SameUpload.refl p s
      · split
        · exact ih (i + 1) s
        · exact (trySendGet_sameUpload env s p i).trans
            (ih (i + 1) _)

theorem refreshChunkDownload_sameUpload
    (env : Env)
    (s : PeerServer)
    (p : Nat) :
    SameUpload p s (refreshChunkDownload env s) := by
  unfold refreshChunkDownload askAgain
  apply (refreshLoop_sameUpload env p s.peerlist.count 0
    s).trans
  split
  · exact (sendWhohas_sameUpload env _ p).trans
      ⟨rfl, rfl, rfl⟩
  · exact SameUpload.refl p _

theorem updateDownload_sameUpload
    (env : Env)
    (s : PeerServer)
    (p q : Nat)
    (pkt : Packet) :
    SameUpload p s (updateDownload env s q pkt) := by
  refine SameUpload.sendAll ((SameUpload.refl p s).setPeer ?_)
    env (dlRecv_acksTo _ _ _ pkt).types
  rintro rfl
  exact ⟨rfl, rfl⟩

theorem checkDownload_sameUpload
    (env : Env)
    (s : PeerServer)
    (p q : Nat) :
    SameUpload p s (checkDownload env s q).1 := by
  refine SameUpload.sendAll ((SameUpload.refl p s).setPeer ?_)
    env (dlCheckTimeout_acksTo _ _ _).types
  rintro rfl
  exact ⟨rfl, rfl⟩

theorem completeDownload_sameUpload
    (sha1 : List Byte → Nat → Byte)
    (env : Env)
    (s : PeerServer)
    (p q : Nat) :
    SameUpload p s (completeDownload sha1 env s q) := by
  have hSave (s : PeerServer) (dl : Download) :
      SameUpload p s (dlSaveBuffer env s dl).1 := by
    unfold dlSaveBuffer
    split
    · dsimp only
      split <;> exact ⟨rfl, rfl, rfl⟩
    · exact ⟨rfl, rfl, rfl⟩
  have hState
      (reset : Prop)
      [Decidable reset]
      (s : PeerServer)
      (i : Nat) :
      SameUpload p s
        (if reset then s.setState i .unfetched else s) := by
    split <;> exact ⟨rfl, rfl, rfl⟩
  have hEnded :
      SameUpload p s
        (PeerServer.setPeer { s with dlNum := s.dlNum - 1 } q
          { s.peer q with isDownloading := false }) := by
    apply SameUpload.setPeer
    · exact ⟨rfl, rfl, rfl⟩
    · rintro rfl
      exact ⟨rfl, rfl⟩
  apply (hEnded.trans _).trans (hState _ _ _)
  split
  · exact hSave _ _
  · exact SameUpload.refl p _

/- Ending the upload to another peer. -/
theorem finishUpload_sameUpload
    (s : PeerServer)
    {p q : Nat}
    (hOther : q ≠ p) :
    SameUpload p s (finishUpload s q) :=
  SameUpload.trans
    ((SameUpload.refl p s).setPeer
      (fun hq => absurd hq hOther))
    ⟨rfl, rfl, rfl⟩

end BtPeer

------------------------------------------------------------
-- What A Step Does To An Upload
------------------------------------------------------------

namespace BtPeer

/- What the event means to the upload to peer `p`. -/
def ServerEvent.ulEvent
    (p : Nat) : ServerEvent → Option UlEvent
| .packet env pkt _ =>
    some (.ack env.rttNow (env.sendTs p) pkt.ack)
| .timeout env =>
    some (.check (env.ulNow p) (env.sendTs p))
| .command _ _ _ _ => none

/- The upload to peer `p` takes the event `e`. -/
structure Moves
    (p : Nat)
    (e : UlEvent)
    (s s' : PeerServer) : Prop where
  before : (s.peer p).isUploading = true
  ul : (s'.peer p).ul = (e.apply (s.peer p).ul).1
  segments :
    segmentNumbers p s'.sent =
      segmentNumbers p s.sent ++
        (e.apply (s.peer p).ul).2.map (fun pp => pp.seq)

/- The upload to peer `p` begins as `r`. -/
structure Launches
    (p : Nat)
    (r : UlRun)
    (s s' : PeerServer) : Prop where
  ul : (s'.peer p).ul = r.ul
  segments :
    segmentNumbers p s'.sent =
      segmentNumbers p s.sent ++ r.log.map (fun t => t.seq)

/-
  All that an event does to the upload to a peer that the
  server is uploading to afterwards.
-/
inductive UploadStep
    (p : Nat)
    (e : ServerEvent)
    (s s' : PeerServer) : Prop where
  | same
      (hSame : SameUpload p s s')
  | moved
      (move : UlEvent)
      (hEvent : e.ulEvent p = some move)
      (hMoves : Moves p move s s')
  | launched
      (env : Env)
      (pkt : Packet)
      (sender : Address)
      (hEvent : e = .packet env pkt sender)
      (hasIndex : Nat)
      (hFound :
        hash2Index s.haschunks (pkt.getHash 0) =
          some hasIndex)
      (hLaunches :
        Launches p
          (UlRun.launch (env.sendTs p) p hasIndex
            (loadData env s hasIndex))
          s s')

/- Every upload knows the index of its peer. -/
def PeerServer.OwnIndices (s : PeerServer) : Prop :=
  ∀ q,
    (s.peer q).isUploading = true → (s.peer q).ul.pIndex = q

theorem Moves.trans_same
    {p : Nat}
    {e : UlEvent}
    {s s' s'' : PeerServer}
    (hMoves : Moves p e s s')
    (hSame : SameUpload p s' s'') :
    Moves p e s s'' :=
  ⟨hMoves.before, hSame.ul.trans hMoves.ul,
    hSame.segments.trans hMoves.segments⟩

theorem Moves.after_same
    {p : Nat}
    {e : UlEvent}
    {s s' s'' : PeerServer}
    (hSame : SameUpload p s s')
    (hMoves : Moves p e s' s'') :
    Moves p e s s'' := by
  refine ⟨hSame.uploading ▸ hMoves.before, ?_, ?_⟩
  · rw [hMoves.ul, hSame.ul]
  · rw [hMoves.segments, hSame.segments, hSame.ul]

/- The peer of an upload never changes. -/
theorem UlEvent.apply_pIndex
    (e : UlEvent)
    (ul : Upload) :
    (e.apply ul).1.pIndex = ul.pIndex := by
  cases e with
  | ack now ts num =>
      exact (ulSend_same ts _).pIndex.trans
        (ulHandleAck_effect now ul num).pIndex
  | check now ts =>
      have hGrow := (growCa_sameCounters now ul).pIndex
      simp only [apply, ulCheckTimeout]
      split
      · rfl
      · split
        · exact (ulSend_same ts _).pIndex.trans hGrow
        · exact hGrow

theorem UlEvent.apply_segmentsOf
    (e : UlEvent)
    (ul : Upload) :
    ul.SegmentsOf (e.apply ul).2 := by
  cases e with
  | ack now ts num =>
      have hEffect := ulHandleAck_effect now ul num
      intro pp hMem
      rcases ulSend_segmentsOf ts _ pp hMem with ⟨seq, rfl⟩
      refine ⟨seq, ?_⟩
      simp only [Upload.segment, hEffect.pIndex, hEffect.data]
  | check now ts =>
      exact ulCheckTimeout_segmentsOf now ts ul

end BtPeer

------------------------------------------------------------
-- Acknowledgements And Checks
------------------------------------------------------------

namespace BtPeer

open PeerServer

/- The upload to peer `p` takes `e` and its packets are sent. -/
def advance
    (env : Env)
    (e : UlEvent)
    (s : PeerServer)
    (p : Nat) : PeerServer :=
  let out := e.apply (s.peer p).ul
  (s.setPeer p { s.peer p with ul := out.1 }).sendAll env out.2

theorem updateUpload_eq
    (env : Env)
    (s : PeerServer)
    (p : Nat)
    (pkt : Packet) :
    updateUpload env s p pkt =
      advance env (.ack env.rttNow (env.sendTs p) pkt.ack) s
        p :=
  rfl

theorem checkUpload_eq
    (env : Env)
    (s : PeerServer)
    (p : Nat) :
    (checkUpload env s p).1 =
      advance env (.check (env.ulNow p) (env.sendTs p)) s p :=
  rfl

theorem advance_moves
    (env : Env)
    (e : UlEvent)
    {s : PeerServer}
    {p : Nat}
    (hUploading : (s.peer p).isUploading = true)
    (hOwn : (s.peer p).ul.pIndex = p) :
    Moves p e s (advance env e s p) := by
  have hSegments := e.apply_segmentsOf (s.peer p).ul
  refine ⟨hUploading, ?_, ?_⟩
  · simp [advance, PeerServer.sendAll, peer, setPeer]
  · simp only [advance, PeerServer.sendAll,
      segmentNumbers_append,
      segmentNumbers_segments _ _ _ p hSegments, if_pos hOwn]
    rfl

theorem advance_sameUpload
    (env : Env)
    (e : UlEvent)
    {s : PeerServer}
    {p q : Nat}
    (hOther : q ≠ p)
    (hOwn : (s.peer q).ul.pIndex = q) :
    SameUpload p s (advance env e s q) := by
  apply SameUpload.sendSegments _ env
    (e.apply_segmentsOf (s.peer q).ul)
  · rw [hOwn]
    exact hOther
  · exact (SameUpload.refl p s).setPeer
      (fun hq => absurd hq hOther)

theorem abortUpload_idle
    (s : PeerServer)
    (i : Nat) :
    ((abortUpload s i).peer i).isUploading = false := by
  simp [abortUpload, die]

theorem abortDownload_idle
    (s : PeerServer)
    (i : Nat) :
    ((abortDownload s i).peer i).isUploading = false := by
  simp [abortDownload, die]

/- Giving up another peer. -/
theorem abortDownload_sameUpload
    (s : PeerServer)
    {p q : Nat}
    (hOther : q ≠ p) :
    SameUpload p s (abortDownload s q) := by
  have hKilled :
      SameUpload p s (killDownload s (s.peer q).dl) :=
    ⟨rfl, rfl, rfl⟩
  simp only [abortDownload]
  apply SameUpload.setPeer _ (fun hq => absurd hq hOther)
  split
  · exact hKilled.trans (finishUpload_sameUpload _ hOther)
  · exact hKilled

theorem abortUpload_sameUpload
    (s : PeerServer)
    {p q : Nat}
    (hOther : q ≠ p) :
    SameUpload p s (abortUpload s q) := by
  have hFinished := finishUpload_sameUpload s hOther
  simp only [abortUpload]
  apply SameUpload.setPeer _ (fun hq => absurd hq hOther)
  split
  · exact hFinished.trans ⟨rfl, rfl, rfl⟩
  · exact hFinished

/-
  The first test of `check_all_timeout` ends an upload or
  leaves it alone.
-/
theorem checkDownloading_upload
    (env : Env)
    {s : PeerServer}
    {p q : Nat}
    (hUploading :
      ((checkDownloading env s q).peer p).isUploading = true) :
    SameUpload p s (checkDownloading env s q) := by
  have hChecked := checkDownload_sameUpload env s p q
  by_cases hActive : (s.peer q).isDownloading = true
  · rw [checkDownloading_active env hActive] at hUploading ⊢
    split at hUploading
    · rename_i hLate
      rw [if_pos hLate]
      by_cases hq : q = p
      · subst hq
        rw [abortDownload_idle] at hUploading
        cases hUploading
      · exact hChecked.trans (abortDownload_sameUpload _ hq)
    · rename_i hInTime
      rw [if_neg hInTime]
      exact hChecked
  · unfold checkDownloading
    rw [if_neg hActive]
    exact SameUpload.refl p s

/- The second test is a check of the upload, or ends it. -/
theorem checkUploading_moves
    (env : Env)
    {s : PeerServer}
    {p : Nat}
    (hOwn : s.OwnIndices)
    (hUploading :
      ((checkUploading env s p).peer p).isUploading = true) :
    Moves p (.check (env.ulNow p) (env.sendTs p)) s
      (checkUploading env s p) := by
  by_cases hActive : (s.peer p).isUploading = true
  · rw [checkUploading_active env hActive] at hUploading ⊢
    split at hUploading
    · rw [abortUpload_idle] at hUploading
      cases hUploading
    · rename_i hInTime
      rw [if_neg hInTime, checkUpload_eq]
      exact advance_moves env _ hActive (hOwn p hActive)
  · unfold checkUploading at hUploading
    rw [if_neg hActive] at hUploading
    exact absurd hUploading hActive

theorem checkUploading_sameUpload
    (env : Env)
    {s : PeerServer}
    {p q : Nat}
    (hOther : q ≠ p)
    (hOwn : s.OwnIndices) :
    SameUpload p s (checkUploading env s q) := by
  by_cases hActive : (s.peer q).isUploading = true
  · have hChecked : SameUpload p s (checkUpload env s q).1 := by
      rw [checkUpload_eq]
      exact advance_sameUpload env _ hOther (hOwn q hActive)
    rw [checkUploading_active env hActive]
    split
    · exact hChecked.trans (abortUpload_sameUpload _ hOther)
    · exact hChecked
  · unfold checkUploading
    rw [if_neg hActive]
    exact SameUpload.refl p s

end BtPeer

------------------------------------------------------------
-- The Timeout Check
------------------------------------------------------------

namespace BtPeer

open PeerServer

/- The upload to peer `p` was checked once or not at all. -/
def CheckedOnce
    (env : Env)
    (p : Nat)
    (s s' : PeerServer) : Prop :=
  SameUpload p s s' ∨
    Moves p (.check (env.ulNow p) (env.sendTs p)) s s'

namespace CheckedOnce

variable {env : Env}
variable {p : Nat}
variable {s s' s'' : PeerServer}

/- The server was uploading to the peer before. -/
theorem before
    (hChecked : CheckedOnce env p s s')
    (hUploading : (s'.peer p).isUploading = true) :
    (s.peer p).isUploading = true := by
  rcases hChecked with hSame | hMoves
  · rw [← hSame.uploading]
    exact hUploading
  · exact hMoves.before

theorem own
    (hChecked : CheckedOnce env p s s')
    (hOwn : s.OwnIndices)
    (hUploading : (s'.peer p).isUploading = true) :
    (s'.peer p).ul.pIndex = p := by
  have hBefore := hOwn p (hChecked.before hUploading)
  rcases hChecked with hSame | hMoves
  · rw [hSame.ul]
    exact hBefore
  · rw [hMoves.ul, UlEvent.apply_pIndex]
    exact hBefore

theorem trans_same
    (hChecked : CheckedOnce env p s s')
    (hSame : SameUpload p s' s'') :
    CheckedOnce env p s s'' := by
  rcases hChecked with hFirst | hMoves
  · exact Or.inl (hFirst.trans hSame)
  · exact Or.inr (hMoves.trans_same hSame)

theorem after_same
    (hSame : SameUpload p s s')
    (hChecked : CheckedOnce env p s' s'') :
    CheckedOnce env p s s'' := by
  rcases hChecked with hLast | hMoves
  · exact Or.inl (hSame.trans hLast)
  · exact Or.inr (Moves.after_same hSame hMoves)

end CheckedOnce

theorem checkDownloading_own
    (env : Env)
    {s : PeerServer}
    (q : Nat)
    (hOwn : s.OwnIndices) :
    (checkDownloading env s q).OwnIndices := by
  intro p hUploading
  have hSame := checkDownloading_upload env hUploading
  rw [hSame.ul]
  exact hOwn p (hSame.uploading ▸ hUploading)

theorem checkUploading_checked
    (env : Env)
    {s : PeerServer}
    {p q : Nat}
    (hOwn : s.OwnIndices)
    (hUploading :
      ((checkUploading env s q).peer p).isUploading = true) :
    CheckedOnce env p s (checkUploading env s q) := by
  by_cases hq : q = p
  · subst hq
    exact Or.inr (checkUploading_moves env hOwn hUploading)
  · exact Or.inl (checkUploading_sameUpload env hq hOwn)

theorem checkPeer_checked
    (env : Env)
    {s : PeerServer}
    {p q : Nat}
    (hOwn : s.OwnIndices)
    (hUploading :
      ((checkPeer env s q).peer p).isUploading = true) :
    CheckedOnce env p s (checkPeer env s q) := by
  unfold checkPeer at hUploading ⊢
  split at hUploading
  · rename_i hAlive
    have hChecked :=
      checkUploading_checked env
        (checkDownloading_own env q hOwn) hUploading
    rw [if_pos hAlive]
    exact hChecked.after_same
      (checkDownloading_upload env
        (hChecked.before hUploading))
  · rename_i hDead
    rw [if_neg hDead]
    exact Or.inl (SameUpload.refl p s)

theorem checkPeer_sameUpload
    (env : Env)
    {s : PeerServer}
    {p q : Nat}
    (hOther : q ≠ p)
    (hOwn : s.OwnIndices)
    (hUploading :
      ((checkPeer env s q).peer p).isUploading = true) :
    SameUpload p s (checkPeer env s q) := by
  unfold checkPeer at hUploading ⊢
  split at hUploading
  · rename_i hAlive
    have hChecked :=
      checkUploading_sameUpload env hOther
        (checkDownloading_own env q hOwn)
    rw [if_pos hAlive]
    refine SameUpload.trans (checkDownloading_upload env ?_)
      hChecked
    rw [← hChecked.uploading]
    exact hUploading
  · rename_i hDead
    rw [if_neg hDead]
    exact SameUpload.refl p s

theorem checkPeer_own
    (env : Env)
    {s : PeerServer}
    (q : Nat)
    (hOwn : s.OwnIndices) :
    (checkPeer env s q).OwnIndices := by
  intro p hUploading
  exact (checkPeer_checked env hOwn hUploading).own hOwn
    hUploading

/- The loop does not come back to a peer. -/
theorem checkLoop_sameUpload
    (env : Env)
    {p : Nat}
    (k i : Nat)
    {s : PeerServer}
    (hPassed : p < i)
    (hOwn : s.OwnIndices)
    (hUploading :
      ((checkLoop env k i s).peer p).isUploading = true) :
    SameUpload p s (checkLoop env k i s) := by
  induction k generalizing i s with
  | zero => exact SameUpload.refl p s
  | succ k ih =>
      have hRest :=
        ih (i + 1) (Nat.lt_succ_of_lt hPassed)
          (checkPeer_own env i hOwn) hUploading
      have hHere :
          ((checkPeer env s i).peer p).isUploading = true := by
        rw [← hRest.uploading]
        exact hUploading
      exact (checkPeer_sameUpload env (Nat.ne_of_gt hPassed)
        hOwn hHere).trans hRest

theorem checkLoop_checked
    (env : Env)
    {p : Nat}
    (k i : Nat)
    {s : PeerServer}
    (hOwn : s.OwnIndices)
    (hUploading :
      ((checkLoop env k i s).peer p).isUploading = true) :
    CheckedOnce env p s (checkLoop env k i s) := by
  induction k generalizing i s with
  | zero => exact Or.inl (SameUpload.refl p s)
  | succ k ih =>
      have hOwn' := checkPeer_own env i hOwn
      by_cases hi : i = p
      · have hRest :=
          checkLoop_sameUpload env k (i + 1)
            (hi ▸ Nat.lt_succ_self i) hOwn' hUploading
        have hHere :
            ((checkPeer env s i).peer p).isUploading = true := by
          rw [← hRest.uploading]
          exact hUploading
        exact (checkPeer_checked env hOwn hHere).trans_same
          hRest
      · have hRest := ih (i + 1) hOwn' hUploading
        exact hRest.after_same
          (checkPeer_sameUpload env hi hOwn
            (hRest.before hUploading))

/- The whole of `check_all_timeout`. -/
theorem checkAllTimeout_checked
    (env : Env)
    {s : PeerServer}
    {p : Nat}
    (hOwn : s.OwnIndices)
    (hUploading :
      ((checkAllTimeout env s).peer p).isUploading = true) :
    CheckedOnce env p s (checkAllTimeout env s) := by
  unfold checkAllTimeout at hUploading ⊢
  dsimp only at hUploading ⊢
  split at hUploading
  · rename_i hRemain
    rw [if_pos hRemain]
    have hRefresh :=
      refreshChunkDownload_sameUpload env
        (checkLoop env s.peerlist.count 0 s) p
    refine CheckedOnce.trans_same ?_ hRefresh
    apply checkLoop_checked env _ 0 hOwn
    rw [← hRefresh.uploading]
    exact hUploading
  · rename_i hDone
    rw [if_neg hDone]
    exact checkLoop_checked env _ 0 hOwn hUploading

end BtPeer

------------------------------------------------------------
-- Packets
------------------------------------------------------------

namespace BtPeer

open PeerServer

theorem raise_sameUpload
    (s : PeerServer)
    (p q : Nat) :
    SameUpload p s
      (s.setPeer q { s.peer q with isAlive := true }) := by
  apply (SameUpload.refl p s).setPeer
  rintro rfl
  exact ⟨rfl, rfl⟩

theorem handleWhohas_sameUpload
    (env : Env)
    (s : PeerServer)
    (pkt : Packet)
    (p q : Nat) :
    SameUpload p s (handleWhohas env s pkt q) := by
  have hRaised := raise_sameUpload s p q
  unfold handleWhohas
  split
  · exact SameUpload.refl p s
  · dsimp only
    split
    · exact hRaised
    · exact hRaised.trans
        (sendIhave_sameUpload env _ pkt p q)

theorem handleIhave_sameUpload
    (env : Env)
    (s : PeerServer)
    (pkt : Packet)
    (p q : Nat) :
    SameUpload p s (handleIhave env s pkt q) := by
  have hRaised := raise_sameUpload s p q
  have hQueue
      (s : PeerServer) :
      SameUpload p s (parseDownload env s pkt q).1 := by
    unfold parseDownload
    split
    · apply (SameUpload.refl p s).setPeer
      rintro rfl
      exact ⟨rfl, rfl⟩
    · apply (SameUpload.refl p s).setPeer
      rintro rfl
      exact ⟨rfl, rfl⟩
  unfold handleIhave
  dsimp only
  split
  · exact hRaised
  · have hParsed := hRaised.trans (hQueue _)
    split
    · rename_i s' hOut
      rw [hOut] at hParsed
      exact hParsed
    · rename_i s' hOut
      rw [hOut] at hParsed
      split
      · exact hParsed
      · exact hParsed.trans (trySendGet_sameUpload env s' p q)

theorem handleData_sameUpload
    (sha1 : List Byte → Nat → Byte)
    (env : Env)
    (s : PeerServer)
    (pkt : Packet)
    (p q : Nat) :
    SameUpload p s (handleData sha1 env s pkt q) := by
  have hUpdated := updateDownload_sameUpload env s p q pkt
  unfold handleData
  split
  · exact SameUpload.refl p s
  · dsimp only
    split
    · have hDone :=
        hUpdated.trans
          (completeDownload_sameUpload sha1 env _ p q)
      split
      · exact hDone.trans
          (refreshChunkDownload_sameUpload env _ p)
      · exact hDone
    · exact hUpdated

/- The test of the ACK branch lets only uploads pass. -/
theorem uploading_of_taken
    {pr : Peer}
    (hTaken : ¬ (! pr.isAlive || ! pr.isUploading) = true) :
    pr.isUploading = true := by
  cases hFlag : pr.isUploading with
  | true => rfl
  | false => simp [hFlag] at hTaken

/- An ACK moves the upload, ends it or is ignored. -/
theorem handleAck_moves
    (env : Env)
    {s : PeerServer}
    (pkt : Packet)
    {p : Nat}
    (hOwn : s.OwnIndices)
    (hUploading :
      ((handleAck env s pkt p).peer p).isUploading = true) :
    SameUpload p s (handleAck env s pkt p) ∨
      Moves p (.ack env.rttNow (env.sendTs p) pkt.ack) s
        (handleAck env s pkt p) := by
  unfold handleAck at hUploading ⊢
  split at hUploading
  · rename_i hIgnored
    rw [if_pos hIgnored]
    exact Or.inl (SameUpload.refl p s)
  · rename_i hTaken
    have hActive := uploading_of_taken hTaken
    rw [if_neg hTaken]
    dsimp only at hUploading ⊢
    split at hUploading
    · simp at hUploading
    · rename_i hOpen
      rw [if_neg hOpen, updateUpload_eq]
      exact Or.inr (advance_moves env _ hActive
        (hOwn p hActive))

theorem handleAck_sameUpload
    (env : Env)
    {s : PeerServer}
    (pkt : Packet)
    {p q : Nat}
    (hOther : q ≠ p)
    (hOwn : s.OwnIndices) :
    SameUpload p s (handleAck env s pkt q) := by
  unfold handleAck
  split
  · exact SameUpload.refl p s
  · rename_i hTaken
    have hActive := uploading_of_taken hTaken
    have hUpdated :
        SameUpload p s (updateUpload env s q pkt) := by
      rw [updateUpload_eq]
      exact advance_sameUpload env _ hOther (hOwn q hActive)
    dsimp only
    split
    · exact (hUpdated.trans
        (finishUpload_sameUpload _ hOther)).setPeer
          (fun hq => absurd hq hOther)
    · exact hUpdated

theorem transmissions_seq
    (ts : Word → Word)
    (rto : Word)
    (sent : List PktParam) :
    (transmissions ts rto sent).map (fun t => t.seq) =
      sent.map (fun pp => pp.seq) := by
  simp [transmissions]

/- What `start_upload` changes when the chunk is mapped. -/
theorem startUpload_mapped
    (env : Env)
    {s : PeerServer}
    {p hasIndex : Nat}
    {content : Nat → Byte}
    (hData : loadData env s hasIndex = some content) :
    let out :=
      ulSend (env.sendTs p)
        (ulInit p hasIndex (some content)).1
    let s' :=
      (s.setPeer p { s.peer p with ul := out.1 }).sendAll env
        out.2.1
    (startUpload env s p hasIndex).1.peer p = s'.peer p ∧
      (startUpload env s p hasIndex).1.sent = s'.sent := by
  intro out s'
  have hStart :
      startUpload env s p hasIndex =
        if out.2.2 then
          ({ s' with ulNum := s'.ulNum + 1 }, true)
        else (s', false) := by
    unfold startUpload
    rw [hData]
    rfl
  rw [hStart]
  split <;> exact ⟨rfl, rfl⟩

theorem startUpload_launches
    (env : Env)
    (s : PeerServer)
    (p hasIndex : Nat) :
    Launches p
      (UlRun.launch (env.sendTs p) p hasIndex
        (loadData env s hasIndex))
      s (startUpload env s p hasIndex).1 := by
  cases hData : loadData env s hasIndex with
  | none =>
      simp only [startUpload, hData, UlRun.launch, ulInit,
        Option.isSome_none]
      refine ⟨?_, ?_⟩
      · simp
      · simp [PeerServer.setPeer]
  | some content =>
      rcases startUpload_mapped env hData with ⟨hPeer, hSent⟩
      have hSegments :=
        ulSend_segmentsOf (env.sendTs p)
          (ulInit p hasIndex (some content)).1
      have hOwn :
          (ulInit p hasIndex (some content)).1.pIndex = p :=
        rfl
      refine ⟨?_, ?_⟩
      · rw [hPeer]
        simp only [sendAll_peer, setPeer_peer, if_true]
        rfl
      · rw [hSent]
        simp only [PeerServer.sendAll, segmentNumbers_append,
          segmentNumbers_segments _ _ _ p hSegments,
          if_pos hOwn]
        exact congrArg (segmentNumbers p s.sent ++ ·)
          (transmissions_seq _ _ _).symm

theorem startUpload_sameUpload
    (env : Env)
    (s : PeerServer)
    {p q : Nat}
    (hasIndex : Nat)
    (hOther : q ≠ p) :
    SameUpload p s (startUpload env s q hasIndex).1 := by
  have hSame
      (ul : Upload) :
      SameUpload p s
        (s.setPeer q { s.peer q with ul := ul }) :=
    (SameUpload.refl p s).setPeer
      (fun hq => absurd hq hOther)
  unfold startUpload
  split
  · exact hSame _
  · rename_i ul hInit
    have hOwn : ul.pIndex = q :=
      (congrArg (fun out => out.1.pIndex) hInit).symm
    have hSent :=
      (hSame (ulSend (env.sendTs q) ul).1).sendSegments env
        (ulSend_segmentsOf (env.sendTs q) ul)
        (hOwn ▸ hOther)
    dsimp only
    split
    · exact hSent.trans ⟨rfl, rfl, rfl⟩
    · exact hSent

/- A GET begins an upload or is ignored. -/
theorem handleGet_launches
    (env : Env)
    (s : PeerServer)
    (pkt : Packet)
    (p : Nat) :
    SameUpload p s (handleGet env s pkt p) ∨
      ∃ hasIndex,
        hash2Index s.haschunks (pkt.getHash 0) =
            some hasIndex ∧
          Launches p
            (UlRun.launch (env.sendTs p) p hasIndex
              (loadData env s hasIndex))
            s (handleGet env s pkt p) := by
  unfold handleGet
  split
  · exact Or.inl (SameUpload.refl p s)
  · split
    · exact Or.inl (SameUpload.refl p s)
    · split
      · exact Or.inl (SameUpload.refl p s)
      · rename_i hasIndex hFound
        let ended :=
          if (s.peer p).isUploading then finishUpload s p
          else s
        have hData :
            loadData env ended hasIndex =
              loadData env s hasIndex := by
          dsimp only [ended]
          split <;> rfl
        have hSent : ended.sent = s.sent := by
          dsimp only [ended]
          split <;> rfl
        have hStarted := startUpload_launches env ended p hasIndex
        rw [hData] at hStarted
        refine Or.inr ⟨hasIndex, hFound, ?_, ?_⟩
        · rw [setPeer_peer, if_pos rfl]
          exact hStarted.ul
        · rw [← hSent]
          exact hStarted.segments

theorem handleGet_sameUpload
    (env : Env)
    (s : PeerServer)
    (pkt : Packet)
    {p q : Nat}
    (hOther : q ≠ p) :
    SameUpload p s (handleGet env s pkt q) := by
  unfold handleGet
  split
  · exact SameUpload.refl p s
  · split
    · exact SameUpload.refl p s
    · split
      · exact SameUpload.refl p s
      · rename_i hasIndex hFound
        have hEnded :
            SameUpload p s
              (if (s.peer q).isUploading then finishUpload s q
              else s) := by
          split
          · exact finishUpload_sameUpload s hOther
          · exact SameUpload.refl p s
        exact (hEnded.trans
          (startUpload_sameUpload env _ hasIndex
            hOther)).setPeer (fun hq => absurd hq hOther)

theorem processGet_sameUpload
    (env : Env)
    (s : PeerServer)
    (chunkfile outputfile : CString)
    (text : Option (List Char))
    (p : Nat) :
    SameUpload p s
      (processGet env s chunkfile outputfile text) := by
  unfold processGet
  split
  · exact SameUpload.refl p s
  · split
    · exact SameUpload.refl p s
    · dsimp only
      split
      · exact ⟨rfl, rfl, rfl⟩
      · rename_i getchunks hParsed
        have hLoaded :
            SameUpload p s
              { s with
                dlFilename := outputfile
                getchunkFile := chunkfile
                getchunks := getchunks
                dlRemain := getchunks.count } :=
          ⟨rfl, rfl, rfl⟩
        exact (hLoaded.trans
          (sendWhohas_sameUpload env _ p)).trans
            ⟨rfl, rfl, rfl⟩

/- What a packet does to the upload to peer `p`. -/
theorem parsePacket_upload
    (sha1 : List Byte → Nat → Byte)
    (env : Env)
    {s : PeerServer}
    (pkt : Packet)
    (sender : Address)
    {p : Nat}
    (hOwn : s.OwnIndices)
    (hUploading :
      ((parsePacket sha1 env s pkt sender).peer
        p).isUploading = true) :
    UploadStep p (.packet env pkt sender) s
      (parsePacket sha1 env s pkt sender) := by
  unfold parsePacket at hUploading ⊢
  cases hPeer : addr2Index s sender with
  | none => exact .same (SameUpload.refl p s)
  | some q =>
      simp only [hPeer] at hUploading ⊢
      split at hUploading
      · exact .same (handleWhohas_sameUpload env s pkt p q)
      · exact .same (handleIhave_sameUpload env s pkt p q)
      · by_cases hq : q = p
        · subst hq
          rcases handleGet_launches env s pkt q with
            hSame | ⟨hasIndex, hFound, hLaunches⟩
          · exact .same hSame
          · exact .launched env pkt sender rfl hasIndex hFound
              hLaunches
        · exact .same (handleGet_sameUpload env s pkt hq)
      · exact .same (handleData_sameUpload sha1 env s pkt p q)
      · by_cases hq : q = p
        · subst hq
          rcases handleAck_moves env pkt hOwn hUploading with
            hSame | hMoves
          · exact .same hSame
          · exact .moved _ rfl hMoves
        · exact .same (handleAck_sameUpload env pkt hq hOwn)
      · exact .same (SameUpload.refl p s)

end BtPeer

------------------------------------------------------------
-- Runs Of The Server
------------------------------------------------------------

namespace BtPeer

open EventMachine
open PeerServer

/-
  The inversion lemma: one event, and a peer that the server
  is uploading to after it.
-/
theorem step_upload
    (sha1 : List Byte → Nat → Byte)
    {s : PeerServer}
    (e : ServerEvent)
    {p : Nat}
    (hOwn : s.OwnIndices)
    (hUploading :
      ((s.step sha1 e).peer p).isUploading = true) :
    UploadStep p e s (s.step sha1 e) := by
  cases e with
  | packet env pkt sender =>
      simp only [PeerServer.step] at hUploading ⊢
      split at hUploading
      · rename_i hValid
        rw [if_pos hValid]
        exact parsePacket_upload sha1 env pkt sender hOwn
          hUploading
      · rename_i hInvalid
        rw [if_neg hInvalid]
        exact .same (SameUpload.refl p s)
  | timeout env =>
      rcases checkAllTimeout_checked env hOwn hUploading with
        hSame | hMoves
      · exact .same hSame
      · exact .moved _ rfl hMoves
  | command env chunkfile outputfile text =>
      exact .same
        (processGet_sameUpload env s chunkfile outputfile text p)

theorem step_own
    (sha1 : List Byte → Nat → Byte)
    {s : PeerServer}
    (e : ServerEvent)
    (hOwn : s.OwnIndices) :
    (s.step sha1 e).OwnIndices := by
  intro p hUploading
  cases step_upload sha1 e hOwn hUploading with
  | same hSame =>
      rw [hSame.ul]
      exact hOwn p (hSame.uploading ▸ hUploading)
  | moved move hEvent hMoves =>
      rw [hMoves.ul, UlEvent.apply_pIndex]
      exact hOwn p hMoves.before
  | launched env pkt sender hEvent hasIndex hFound hLaunches =>
      rw [hLaunches.ul]
      exact launch_pIndex _ p hasIndex _

/-
  The upload to peer `p` is that of `r`, and the segments
  sent to the peer end with those in the log of `r`.
-/
structure Follows
    (p : Nat)
    (r : UlRun)
    (s : PeerServer) : Prop where
  ul : (s.peer p).ul = r.ul
  segments :
    ∃ earlier,
      segmentNumbers p s.sent =
        earlier ++ r.log.map (fun t => t.seq)

/- Every upload follows a run for which `inv` holds. -/
def PeerServer.Uploads
    (inv : Nat → UlRun → Prop)
    (s : PeerServer) : Prop :=
  ∀ p,
    (s.peer p).isUploading = true →
      ∃ r, inv p r ∧ Follows p r s

/-
  What a property of the runs has to stand in one event of
  the server: runs with `inv` before it have `inv'` after it.
-/
structure SustainsTo
    (inv inv' : Nat → UlRun → Prop)
    (s : PeerServer)
    (e : ServerEvent) : Prop where
  same : ∀ p r, inv p r → inv' p r
  move :
    ∀ p r move,
      (s.peer p).isUploading = true →
      (s.peer p).ul = r.ul →
      e.ulEvent p = some move →
      inv p r → inv' p (r.step move)
  launch :
    ∀ p env pkt sender hasIndex,
      e = .packet env pkt sender →
      hash2Index s.haschunks (pkt.getHash 0) = some hasIndex →
        inv' p
          (UlRun.launch (env.sendTs p) p hasIndex
            (loadData env s hasIndex))

/- The same property before and after. -/
abbrev Sustains
    (inv : Nat → UlRun → Prop) :
    PeerServer → ServerEvent → Prop :=
  SustainsTo inv inv

theorem PeerServer.Uploads.mono
    {inv inv' : Nat → UlRun → Prop}
    (hImp : ∀ p r, inv p r → inv' p r)
    {s : PeerServer}
    (hUploads : s.Uploads inv) :
    s.Uploads inv' := by
  intro p hUploading
  rcases hUploads p hUploading with ⟨r, hInv, hFollows⟩
  exact ⟨r, hImp p r hInv, hFollows⟩

theorem step_uploads
    {inv inv' : Nat → UlRun → Prop}
    (sha1 : List Byte → Nat → Byte)
    {s : PeerServer}
    {e : ServerEvent}
    (hOwn : s.OwnIndices)
    (hUploads : s.Uploads inv)
    (hSustains : SustainsTo inv inv' s e) :
    (s.step sha1 e).Uploads inv' := by
  intro p hUploading
  cases step_upload sha1 e hOwn hUploading with
  | same hSame =>
      rcases hUploads p (hSame.uploading ▸ hUploading) with
        ⟨r, hInv, hUl, earlier, hSegments⟩
      exact ⟨r, hSustains.same p r hInv, hSame.ul.trans hUl,
        earlier, hSame.segments.trans hSegments⟩
  | moved move hEvent hMoves =>
      rcases hUploads p hMoves.before with
        ⟨r, hInv, hUl, earlier, hSegments⟩
      refine ⟨r.step move,
        hSustains.move p r move hMoves.before hUl hEvent hInv,
        ?_, earlier, ?_⟩
      · rw [hMoves.ul, hUl]
        rfl
      · rw [hMoves.segments, hSegments, hUl,
          List.append_assoc, UlRun.step, List.map_append,
          UlEvent.sends, transmissions_seq]
  | launched env pkt sender hEvent hasIndex hFound hLaunches =>
      exact ⟨_,
        hSustains.launch p env pkt sender hasIndex hEvent
          hFound, hLaunches.ul, _, hLaunches.segments⟩

/-
  The run rule: what the events sustain holds of every upload
  in every run.
-/
theorem run_uploads
    {inv : Nat → UlRun → Prop}
    (sha1 : List Byte → Nat → Byte)
    {s : PeerServer}
    (hOwn : s.OwnIndices)
    (hUploads : s.Uploads inv)
    {es : List ServerEvent}
    (hAlong :
      Along (PeerServer.step sha1) (Sustains inv) s es) :
    (run (PeerServer.step sha1) s es).Uploads inv :=
  (@run_invariant_along _ _ (PeerServer.step sha1)
    (fun s => s.OwnIndices ∧ s.Uploads inv) _
    (fun _ e hBoth hSustains =>
      ⟨step_own sha1 e hBoth.1,
        step_uploads sha1 hBoth.1 hBoth.2 hSustains⟩)
    s ⟨hOwn, hUploads⟩ es hAlong).2

end BtPeer

------------------------------------------------------------
-- What Holds Of Every Upload
------------------------------------------------------------

namespace BtPeer

open EventMachine
open PeerServer

/-
  Among the events `es` is a GET packet that launched `r`, as
  a run for the chunk asked for. Some of the acknowledgements
  and checks behind it have moved `r`, in their order.
-/
def RunOf
    (sha1 : List Byte → Nat → Byte)
    (start : PeerServer)
    (es : List ServerEvent)
    (p : Nat)
    (r : UlRun) : Prop :=
  ∃ before env pkt sender since hasIndex moves,
    es = before ++ .packet env pkt sender :: since ∧
      let s := run (PeerServer.step sha1) start before
      hash2Index s.haschunks (pkt.getHash 0) =
          some hasIndex ∧
        r =
          run UlRun.step
            (UlRun.launch (env.sendTs p) p hasIndex
              (loadData env s hasIndex))
            moves ∧
        moves.Sublist
          (since.filterMap (ServerEvent.ulEvent p))

/- One more event sustains it. -/
theorem RunOf.sustains
    (sha1 : List Byte → Nat → Byte)
    (start : PeerServer)
    (es : List ServerEvent)
    (e : ServerEvent) :
    SustainsTo (RunOf sha1 start es)
      (RunOf sha1 start (es ++ [e]))
      (run (PeerServer.step sha1) start es) e where
  same := by
    rintro p r ⟨before, env, pkt, sender, since, hasIndex,
      moves, rfl, hFound, hRun, hMoves⟩
    refine ⟨before, env, pkt, sender, since ++ [e], hasIndex,
      moves, ?_, hFound, hRun, ?_⟩
    · rw [List.append_assoc, List.cons_append]
    · rw [List.filterMap_append]
      exact hMoves.trans (List.sublist_append_left _ _)
  move := by
    rintro p r move _ _ hEvent ⟨before, env, pkt, sender,
      since, hasIndex, moves, rfl, hFound, rfl, hMoves⟩
    refine ⟨before, env, pkt, sender, since ++ [e], hasIndex,
      moves ++ [move], ?_, hFound, ?_, ?_⟩
    · rw [List.append_assoc, List.cons_append]
    · rw [run_concat]
    · have hLast :
          [e].filterMap (ServerEvent.ulEvent p) = [move] := by
        rw [List.filterMap_cons_some hEvent]
        rfl
      rw [List.filterMap_append, hLast]
      exact hMoves.append (List.Sublist.refl [move])
  launch := by
    rintro p env pkt sender hasIndex rfl hFound
    exact ⟨es, env, pkt, sender, [], hasIndex, [], rfl,
      hFound, rfl, List.Sublist.refl []⟩

/- No clock read for an upload in the event answers 0. -/
def ServerEvent.ClockReads (e : ServerEvent) : Prop :=
  ∀ p move, e.ulEvent p = some move → move.ClockReads

/- The server is not uploading to anybody. -/
def PeerServer.NotUploading (s : PeerServer) : Prop :=
  ∀ p, (s.peer p).isUploading = false

theorem peerInit_notUploading
    (addrs : List Address)
    (masterChunk : Nat → Byte)
    (haschunks : ChunkList)
    (maxConn : Int)
    (files : CString → ByteMemory.SparseFile Byte) :
    (peerInit addrs masterChunk haschunks maxConn
      files).NotUploading :=
  fun _ => rfl

/-
  The sample peer is heard of, asks for the chunk and
  acknowledges its first segment.
-/
def sampleRequest : List ServerEvent :=
  [.packet sampleEnv (samplePacket .whohas) sampleAddress,
    .packet sampleEnv (samplePacket .get) sampleAddress,
    .packet sampleEnv { samplePacket .ack with ack := 1 }
      sampleAddress]

theorem sampleRequest_uploading :
    ((run (PeerServer.step (fun _ _ => 0)) sampleServer
      sampleRequest).peer 0).isUploading = true := by
  decide

section

variable (sha1 : List Byte → Nat → Byte)
variable {s : PeerServer}
variable (hIdle : s.NotUploading)
include hIdle

theorem NotUploading.own : s.OwnIndices := by
  intro p hUploading
  rw [hIdle p] at hUploading
  nomatch hUploading

theorem NotUploading.none
    (inv : Nat → UlRun → Prop) :
    s.Uploads inv := by
  intro p hUploading
  rw [hIdle p] at hUploading
  nomatch hUploading

theorem NotUploading.uploads
    {inv : Nat → UlRun → Prop}
    {es : List ServerEvent}
    (hAlong :
      Along (PeerServer.step sha1) (Sustains inv) s es) :
    (run (PeerServer.step sha1) s es).Uploads inv :=
  run_uploads sha1 (NotUploading.own hIdle)
    (NotUploading.none hIdle inv) hAlong

end

/-
  In the event every chunk asked for can be mapped, no timer
  is stored as 0, and there is room to send.
-/
structure Unhindered
    (s : PeerServer)
    (e : ServerEvent) : Prop where
  move :
    ∀ p move,
      (s.peer p).isUploading = true →
      e.ulEvent p = some move →
        move.ArmsTimers (s.peer p).ul ∧
          move.RoomToSend (s.peer p).ul
  launch :
    ∀ p env pkt sender hasIndex,
      e = .packet env pkt sender →
      hash2Index s.haschunks (pkt.getHash 0) = some hasIndex →
        ∃ content,
          loadData env s hasIndex = some content ∧
            ∀ t ∈
              (UlRun.launch (env.sendTs p) p hasIndex
                (some content)).log,
              t.time + t.rto ≠ 0

/- A launched upload is safe, mapped or not. -/
theorem launch_sound
    {ts : Word → Word}
    (hClock : ∀ seq, ts seq ≠ 0)
    (pIndex hasIndex : Nat)
    (mapped : Option (Nat → Byte)) :
    (UlRun.launch ts pIndex hasIndex mapped).Sound := by
  cases mapped with
  | none =>
      refine ⟨ulInit_paced pIndex hasIndex none,
        ⟨Nat.zero_le _, Nat.le_refl _⟩, ?_⟩
      intro k hPos hLe
      exact absurd hPos (Nat.not_lt.mpr hLe)
  | some content =>
      exact start_sound hClock
        (launch_start (hClock 1) pIndex hasIndex content)

section

variable (sha1 : List Byte → Nat → Byte)
variable {s : PeerServer}
variable (hIdle : s.NotUploading)
variable {es : List ServerEvent}
variable (hReads : ∀ e ∈ es, e.ClockReads)
include hIdle hReads

end

theorem sampleRequest_reads :
    ∀ e ∈ sampleRequest, e.ClockReads := by
  have hPacket
      (pkt : Packet) :
      (ServerEvent.packet sampleEnv pkt
        sampleAddress).ClockReads := by
    rintro p move hEvent
    cases hEvent
    have hOne : (1 : Word) ≠ 0 := by decide
    exact ⟨hOne, fun _ => hOne⟩
  intro e hMem
  simp only [sampleRequest, List.mem_cons, List.not_mem_nil,
    or_false] at hMem
  rcases hMem with rfl | rfl | rfl <;> exact hPacket _

section

variable (sha1 : List Byte → Nat → Byte)
variable {s : PeerServer}
variable (hIdle : s.NotUploading)
variable {es : List ServerEvent}
variable (hReads : ∀ e ∈ es, e.ClockReads)
include hIdle hReads

end

section

variable {s : PeerServer}

/- The sample server can map what it has. -/
theorem sample_launch
    (hHas : s.haschunks = oneChunk)
    (q hasIndex : Nat) :
    ∃ content,
      loadData sampleEnv s hasIndex = some content ∧
        ∀ t ∈
          (UlRun.launch (sampleEnv.sendTs q) q hasIndex
            (some content)).log,
          t.time + t.rto ≠ 0 := by
  have hOffset : getChunkOffset s hasIndex = 0 := by
    unfold getChunkOffset
    rw [hHas]
    rfl
  have hData :
      loadData sampleEnv s hasIndex =
        some (fun i => s.masterChunk (0 + i)) := by
    unfold loadData
    rw [hOffset]
    rfl
  refine ⟨_, hData, ?_⟩
  intro t hMem
  have hFirst : t = ⟨1, 1, 5000⟩ := List.mem_singleton.mp hMem
  rw [hFirst]
  decide

/- A packet that finds no upload to move is unhindered. -/
theorem sample_unhindered
    (hHas : s.haschunks = oneChunk)
    {pkt : Packet}
    (hMove :
      ∀ p,
        (s.peer p).isUploading = true →
          (UlEvent.ack 1 (fun _ => 1) pkt.ack).ArmsTimers
              (s.peer p).ul ∧
            (UlEvent.ack 1 (fun _ => 1) pkt.ack).RoomToSend
              (s.peer p).ul) :
    Unhindered s
      (.packet sampleEnv pkt sampleAddress) where
  move := by
    rintro p move hUploading hEvent
    cases hEvent
    exact hMove p hUploading
  launch := by
    rintro p env pkt' sender hasIndex hEvent _
    cases hEvent
    exact sample_launch hHas p hasIndex

end

/- The packets of the sample peer are for its own upload. -/
theorem sampleRequest_heard
    (p : Nat) :
    SameUpload p sampleServer
      (run (PeerServer.step (fun _ _ => 0)) sampleServer
        (sampleRequest.take 1)) :=
  handleWhohas_sameUpload sampleEnv sampleServer
    (samplePacket .whohas) p 0

theorem sampleRequest_asked
    {p : Nat}
    (hOther : 0 ≠ p) :
    SameUpload p sampleServer
      (run (PeerServer.step (fun _ _ => 0)) sampleServer
        (sampleRequest.take 2)) :=
  (sampleRequest_heard p).trans
    (handleGet_sameUpload sampleEnv _ (samplePacket .get)
      hOther)

end BtPeer
