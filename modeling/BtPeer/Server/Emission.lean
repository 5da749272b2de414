import BtPeer.Packet.HashPacket
import BtPeer.Packet.Wire
import BtPeer.Server.Delivery

/-
  What the server puts on the network is acceptable to the
  receiver of another server, except a WHOHAS packet for a
  slice of the list that has no unfetched chunk left.

  Key definitions include:
    * `Packet.Acceptable`
    * `ChunkList.SlicesUnfetched`
    * `PeerServer.Emits`
    * `refreshed`

  Key theorems include:
    * `whohas_acceptable_iff`
    * `refreshLoop_emits`
    * `step_acceptable_iff`
    * `emissions_acceptable_iff`
    * `empty_whohas_emitted`
-/

------------------------------------------------------------
-- Acceptable Packets
------------------------------------------------------------

namespace BtPeer

/-
  `valid_packet` accepts what `DECODE_PKT` makes of the bytes
  emitted for this packet, whatever was in the buffer.
-/
def Packet.Acceptable (pkt : Packet) : Prop :=
  ∀ stale,
    validPacket
      (decodePkt (encodePkt pkt) stale pkt.pktLen.toNat) =
      true

theorem acceptable_iff
    {pkt : Packet}
    (hHeader : headerSize ≤ pkt.pktLen.toNat) :
    pkt.Acceptable ↔ validPacket pkt = true := by
  have hSame (stale : Nat → Byte) :
      validPacket pkt =
        validPacket
          (decodePkt (encodePkt pkt) stale
            pkt.pktLen.toNat) :=
    (decodePkt_encodePkt hHeader stale).validPacket_eq
  constructor
  · intro hAcceptable
    exact (hSame (fun _ => 0)).trans
      (hAcceptable (fun _ => 0))
  · intro hValid stale
    exact (hSame stale).symm.trans hValid

theorem CarriesHashes.acceptable_iff
    {t : PacketType}
    {hashes : List CString}
    {pkt : Packet}
    (hCarries : CarriesHashes t hashes pkt) :
    pkt.Acceptable ↔ validPacket pkt = true := by
  apply BtPeer.acceptable_iff
  rw [hCarries.pktLen, Nat.add_assoc]
  exact Nat.le_add_right _ _

/- Every packet that a call makes is acceptable. -/
def AcceptableCall
    (getchunks : ChunkList)
    (pp : PktParam) : Prop :=
  ∀ stack,
    ∀ pkt ∈ buildPackets getchunks stack pp, pkt.Acceptable

theorem ack_acceptable
    (getchunks : ChunkList)
    (pIndex : Nat)
    (ack : Word) :
    AcceptableCall getchunks (ackParam pIndex ack) := by
  intro stack pkt hMem
  rw [buildPackets_ack] at hMem
  rw [List.mem_singleton.mp hMem]
  exact (acceptable_iff (Nat.le_refl _)).mpr rfl

theorem data_acceptable
    (getchunks : ChunkList)
    (pIndex : Nat)
    (seq : Word)
    (payload : Option (Nat → Byte)) :
    AcceptableCall getchunks
      (dataParam pIndex seq payload) := by
  intro stack pkt hMem
  cases payload with
  | none =>
      have hIndex : ¬ ((pIndex : Int) < 0) := by omega
      simp [buildPackets, dataParam, PktParam.clear,
        PktParam.nondata, plainPacket, hIndex] at hMem
      rw [hMem]
      exact (acceptable_iff (Nat.le_refl _)).mpr rfl
  | some payload =>
      rw [buildPackets_data] at hMem
      rw [List.mem_singleton.mp hMem]
      exact
        (acceptable_iff (Nat.le_of_ble_eq_true rfl)).mpr rfl

theorem get_acceptable
    (getchunks : ChunkList)
    (pIndex getIndex : Nat) :
    AcceptableCall getchunks
      (getParam getchunks pIndex getIndex) := by
  intro stack pkt hMem
  rcases getPackets_carry getchunks pIndex getIndex stack with
    ⟨out, hOut, hCarries⟩
  rw [hOut] at hMem
  rw [List.mem_singleton.mp hMem]
  exact hCarries.acceptable_iff.mpr
    (hCarries.valid_get (List.cons_ne_nil _ _))

/- A packet is only made for a slice that has chunks. -/
theorem slice_start_lt
    {count m : Nat}
    (hm : m < packetNum count) :
    hashNumPkt * m < count := by
  simp only [packetNum, sha1HashSize_eq, maxPayloadSize_eq]
    at hm
  simp only [hashNumPkt_eq]
  omega

theorem sliceHashes_ne_nil_iff
    (getchunks c : ChunkList)
    (pp : PktParam)
    {m : Nat}
    (hm : m < packetNum (pp.chunkCount c)) :
    sliceHashes getchunks c pp m ≠ [] ↔
      ∃ j, hashNumPkt * m ≤ j ∧ j < hashNumPkt * (m + 1) ∧
        j < pp.chunkCount c ∧
          selected getchunks pp j = true := by
  have hStart := slice_start_lt hm
  unfold sliceHashes selectedHashes
  rw [Nat.min_eq_right (Nat.le_of_lt hStart), ne_eq,
    List.map_eq_nil_iff, List.filter_eq_nil_iff]
  simp only [List.mem_range'_1]
  constructor
  · intro hSome
    by_contra hNone
    apply hSome
    intro j hj hSel
    apply hNone
    refine ⟨j, hj.1, ?_, ?_, hSel⟩
    · omega
    · omega
  · rintro ⟨j, hLow, hHigh, hCount, hSel⟩ hNone
    refine hNone j ⟨hLow, ?_⟩ hSel
    omega

/- An IHAVE answer is acceptable. -/
theorem ihave_acceptable
    (getchunks ihavechunks : ChunkList)
    (pIndex : Nat) :
    AcceptableCall getchunks
      (ihaveParam ihavechunks pIndex) := by
  intro stack pkt hMem
  have hEach :=
    (@mem_buildPackets getchunks ihavechunks
      (ihaveParam ihavechunks pIndex) (Or.inr rfl) rfl
      (Int.natCast_nonneg pIndex) (Int.le_refl 0) stack).1
  rcases hEach pkt hMem with ⟨m, hm, hCarries⟩
  have hStart := slice_start_lt hm
  rw [hCarries.acceptable_iff, hCarries.valid_iff (Or.inr rfl),
    sliceHashes_ne_nil_iff _ _ _ hm]
  refine ⟨hashNumPkt * m, Nat.le_refl _, ?_, hStart,
    selected_ihave _ _ _ _⟩
  simp only [hashNumPkt_eq]
  omega

/-
  Every slice of the list that gets a WHOHAS packet has an
  unfetched chunk.
-/
def ChunkList.SlicesUnfetched (cl : ChunkList) : Prop :=
  ∀ m, m < packetNum cl.count →
    ∃ j, hashNumPkt * m ≤ j ∧ j < hashNumPkt * (m + 1) ∧
      j < cl.count ∧ (cl.chunks j).state = .unfetched

/- A broadcast is acceptable exactly in that case. -/
theorem whohas_acceptable_iff
    (getchunks : ChunkList)
    (stack : Nat → Byte) :
    (∀ pkt ∈
        buildPackets getchunks stack (whohasParam getchunks),
        pkt.Acceptable) ↔
      getchunks.SlicesUnfetched := by
  rcases @mem_buildPackets getchunks getchunks
      (whohasParam getchunks) (Or.inl rfl) rfl
      (Int.le_refl 0) (Int.le_refl 0) stack with
    ⟨hEach, hAll⟩
  have hCount :
      (whohasParam getchunks).chunkCount getchunks =
        getchunks.count := rfl
  have hType : (whohasParam getchunks).type = .whohas := rfl
  rw [hCount, hType] at hEach hAll
  have hSlice :
      ∀ m, m < packetNum getchunks.count →
        ∀ pkt,
          CarriesHashes .whohas
              (sliceHashes getchunks getchunks
                (whohasParam getchunks) m) pkt →
            (pkt.Acceptable ↔
              ∃ j, hashNumPkt * m ≤ j ∧
                j < hashNumPkt * (m + 1) ∧
                j < getchunks.count ∧
                (getchunks.chunks j).state =
                  .unfetched) := by
    intro m hm pkt hCarries
    rw [← hCount] at hm
    rw [hCarries.acceptable_iff,
      hCarries.valid_iff (Or.inl rfl),
      sliceHashes_ne_nil_iff _ _ _ hm, hCount]
    simp only [selected_whohas, decide_eq_true_eq]
  constructor
  · intro hAcceptable m hm
    rcases hAll m hm with ⟨pkt, hMem, hCarries⟩
    exact (hSlice m hm pkt hCarries).mp
      (hAcceptable pkt hMem)
  · intro hSlices pkt hMem
    rcases hEach pkt hMem with ⟨m, hm, hCarries⟩
    exact (hSlice m hm pkt hCarries).mpr (hSlices m hm)

end BtPeer

------------------------------------------------------------
-- Calls Of The Transfers
------------------------------------------------------------

namespace BtPeer

/- Every packet of these calls is acceptable. -/
def AcceptableCalls
    (getchunks : ChunkList)
    (sent : List PktParam) : Prop :=
  ∀ pp ∈ sent, AcceptableCall getchunks pp

theorem AcceptableCalls.of_segments
    (getchunks : ChunkList)
    {ul : Upload}
    {sent : List PktParam}
    (hSegments : ul.SegmentsOf sent) :
    AcceptableCalls getchunks sent := by
  intro pp hMem
  rcases hSegments pp hMem with ⟨seq, rfl⟩
  exact data_acceptable getchunks ul.pIndex seq _

theorem AcceptableCalls.of_acks
    (getchunks : ChunkList)
    {dl : Download}
    {sent : List PktParam}
    (hAcks : dl.AcksTo sent) :
    AcceptableCalls getchunks sent := by
  intro pp hMem
  rcases hAcks pp hMem with ⟨ack, rfl⟩
  exact ack_acceptable getchunks dl.pIndex ack

end BtPeer

------------------------------------------------------------
-- What The Handlers Emit
------------------------------------------------------------

namespace BtPeer

open PeerServer

namespace PeerServer

/- From `s` on, only acceptable packets were sent. -/
def Emits (s s' : PeerServer) : Prop :=
  ∃ new,
    s'.sent = s.sent ++ new ∧ ∀ d ∈ new, d.pkt.Acceptable

theorem Emits.nothing
    {s s' : PeerServer}
    (hSent : s'.sent = s.sent) :
    s.Emits s' :=
  ⟨[], by rw [hSent, List.append_nil], fun _ h => by cases h⟩

theorem Emits.trans
    {s s' s'' : PeerServer}
    (h : s.Emits s')
    (h' : s'.Emits s'') :
    s.Emits s'' := by
  rcases h with ⟨new, hSent, hNew⟩
  rcases h' with ⟨new', hSent', hNew'⟩
  refine ⟨new ++ new', ?_, ?_⟩
  · rw [hSent', hSent, List.append_assoc]
  · intro d hMem
    rcases List.mem_append.mp hMem with hOld | hLater
    · exact hNew d hOld
    · exact hNew' d hLater

/- Every datagram sent so far is acceptable. -/
def AllAcceptable (s : PeerServer) : Prop :=
  ∀ d ∈ s.sent, d.pkt.Acceptable

theorem Emits.allAcceptable_iff
    {s s' : PeerServer}
    (hEmits : s.Emits s') :
    s'.AllAcceptable ↔ s.AllAcceptable := by
  rcases hEmits with ⟨new, hSent, hNew⟩
  unfold AllAcceptable
  rw [hSent]
  constructor
  · intro hAll d hMem
    exact hAll d (List.mem_append_left _ hMem)
  · intro hAll d hMem
    rcases List.mem_append.mp hMem with hOld | hLater
    · exact hAll d hOld
    · exact hNew d hLater

theorem mem_sendPacket
    {getchunks : ChunkList}
    {peerCount : Nat}
    {stack : Nat → Byte}
    {pp : PktParam}
    {d : Datagram}
    (hMem : d ∈ sendPacket getchunks peerCount stack pp) :
    d.pkt ∈ buildPackets getchunks stack pp := by
  rcases List.mem_flatMap.mp hMem with ⟨pkt, hPkt, hSent⟩
  rcases List.mem_map.mp hSent with ⟨i, _, rfl⟩
  exact hPkt

theorem send_emits
    {s : PeerServer}
    (env : Env)
    {pp : PktParam}
    (hCall : AcceptableCall s.getchunks pp) :
    s.Emits (s.send env pp) :=
  ⟨_, rfl, fun d hMem =>
    hCall env.stack d.pkt (mem_sendPacket hMem)⟩

theorem sendAll_emits
    {s : PeerServer}
    (env : Env)
    {pps : List PktParam}
    (hCalls : AcceptableCalls s.getchunks pps) :
    s.Emits (s.sendAll env pps) := by
  refine ⟨_, rfl, ?_⟩
  intro d hMem
  rcases List.mem_flatMap.mp hMem with ⟨pp, hPP, hSent⟩
  exact hCalls pp hPP env.stack d.pkt (mem_sendPacket hSent)

end PeerServer

theorem sendIhave_emits
    (env : Env)
    (s : PeerServer)
    (pkt : Packet)
    (p : Nat) :
    s.Emits (sendIhave env s pkt p) := by
  simp only [sendIhave]
  split
  · exact Emits.nothing rfl
  · exact (Emits.nothing rfl).trans
      (send_emits env (ihave_acceptable _ _ p))

theorem trySendGet_emits
    (env : Env)
    (s : PeerServer)
    (p : Nat) :
    s.Emits (trySendGet env s p) := by
  unfold trySendGet
  split
  · rename_i s' getIndex hFound
    have hQuiet : s.Emits s' := by
      apply Emits.nothing
      unfold findUnfetchedChunk at hFound
      split at hFound <;> cases hFound
      rfl
    have hGet : s'.Emits (sendGet env s' p getIndex) :=
      (Emits.nothing rfl).trans
        (send_emits env (get_acceptable _ p getIndex))
    exact hQuiet.trans (hGet.trans (Emits.nothing rfl))
  · rename_i s' hNone
    apply Emits.nothing
    unfold findUnfetchedChunk at hNone
    split at hNone <;> cases hNone
    rfl

theorem refreshLoop_emits
    (env : Env)
    (k i : Nat)
    (s : PeerServer) :
    s.Emits (refreshLoop env k i s) := by
  induction k generalizing i s with
  | zero => exact Emits.nothing rfl
  | succ k ih =>
      simp only [refreshLoop]
      split
      · exact Emits.nothing rfl
      · split
        · exact ih (i + 1) s
        · exact (trySendGet_emits env s i).trans
            (ih (i + 1) _)

theorem updateDownload_emits
    (env : Env)
    (s : PeerServer)
    (p : Nat)
    (pkt : Packet) :
    s.Emits (updateDownload env s p pkt) :=
  (Emits.nothing rfl).trans
    (sendAll_emits env (.of_acks _ (dlRecv_acksTo _ _ _ pkt)))

theorem checkDownload_emits
    (env : Env)
    (s : PeerServer)
    (i : Nat) :
    s.Emits (checkDownload env s i).1 :=
  (Emits.nothing rfl).trans
    (sendAll_emits env
      (.of_acks _ (dlCheckTimeout_acksTo _ _ _)))

theorem updateUpload_emits
    (env : Env)
    (s : PeerServer)
    (p : Nat)
    (pkt : Packet) :
    s.Emits (updateUpload env s p pkt) :=
  (Emits.nothing rfl).trans
    (sendAll_emits env (.of_segments _ (ulSend_segmentsOf _ _)))

theorem checkUpload_emits
    (env : Env)
    (s : PeerServer)
    (i : Nat) :
    s.Emits (checkUpload env s i).1 :=
  (Emits.nothing rfl).trans
    (sendAll_emits env
      (.of_segments _ (ulCheckTimeout_segmentsOf _ _ _)))

theorem startUpload_emits
    (env : Env)
    (s : PeerServer)
    (p hasIndex : Nat) :
    s.Emits (startUpload env s p hasIndex).1 := by
  unfold startUpload
  split
  · exact Emits.nothing rfl
  · rename_i ul hInit
    dsimp only
    have hSends :
        s.Emits
          ((s.setPeer p
              { s.peer p with
                ul := (ulSend (env.sendTs p) ul).1 }).sendAll
            env (ulSend (env.sendTs p) ul).2.1) :=
      (Emits.nothing rfl).trans
        (sendAll_emits env
          (.of_segments _ (ulSend_segmentsOf _ ul)))
    split
    · exact hSends.trans (Emits.nothing rfl)
    · exact hSends

end BtPeer

------------------------------------------------------------
-- Asking Again
------------------------------------------------------------

namespace BtPeer

open PeerServer

/-
  The test of `refresh_chunk_download` for another broadcast,
  and somebody to send it to.
-/
def BroadcastsAgain
    (env : Env)
    (s : PeerServer) : Prop :=
  (s.dlNum = 0 ∧ 0 < s.dlRemain ∧
      BitVec.ofNat 32 defaultTimeout <
        env.refreshNow - s.lastWhohas) ∧
    0 < s.peerlist.count

theorem sendWhohas_acceptable_iff
    (env : Env)
    (s : PeerServer) :
    (sendWhohas env s).AllAcceptable ↔
      s.AllAcceptable ∧
        (0 < s.peerlist.count → s.getchunks.SlicesUnfetched) := by
  have hCount :
      (whohasParam s.getchunks).peerCount s.peerlist.count =
        s.peerlist.count := rfl
  unfold AllAcceptable sendWhohas PeerServer.send
  simp only [List.mem_append]
  constructor
  · intro hAll
    refine ⟨fun d hMem => hAll d (Or.inl hMem), ?_⟩
    intro hPeers
    rw [← whohas_acceptable_iff s.getchunks env.stack]
    intro pkt hMem
    refine hAll ⟨0 + 0, pkt⟩ (Or.inr ?_)
    refine List.mem_flatMap.mpr ⟨pkt, hMem, ?_⟩
    refine List.mem_map.mpr ⟨0, ?_, rfl⟩
    rw [hCount]
    exact List.mem_range.mpr hPeers
  · rintro ⟨hOld, hSlices⟩ d (hMem | hMem)
    · exact hOld d hMem
    · rcases List.mem_flatMap.mp hMem with
        ⟨pkt, hPkt, hSent⟩
      rcases List.mem_map.mp hSent with ⟨i, hi, rfl⟩
      rw [hCount] at hi
      have hPeers :=
        Nat.lt_of_le_of_lt (Nat.zero_le i)
          (List.mem_range.mp hi)
      exact
        (whohas_acceptable_iff s.getchunks env.stack).mpr
          (hSlices hPeers) pkt hPkt

theorem askAgain_acceptable_iff
    (env : Env)
    (s : PeerServer) :
    (askAgain env s).AllAcceptable ↔
      s.AllAcceptable ∧
        (BroadcastsAgain env s →
          s.getchunks.SlicesUnfetched) := by
  unfold askAgain BroadcastsAgain
  split
  · rename_i hAsks
    have hSend := sendWhohas_acceptable_iff env s
    have hSame :
        ({ sendWhohas env s with
            lastWhohas := env.whohasTs } :
          PeerServer).AllAcceptable ↔
          (sendWhohas env s).AllAcceptable := Iff.rfl
    rw [hSame, hSend]
    constructor
    · rintro ⟨hOld, hSlices⟩
      exact ⟨hOld, fun hAgain => hSlices hAgain.2⟩
    · rintro ⟨hOld, hSlices⟩
      exact ⟨hOld, fun hPeers => hSlices ⟨hAsks, hPeers⟩⟩
  · rename_i hQuiet
    constructor
    · intro hOld
      exact ⟨hOld, fun hAgain => absurd hAgain.1 hQuiet⟩
    · exact fun hBoth => hBoth.1

theorem completeDownload_emits
    (sha1 : List Byte → Nat → Byte)
    (env : Env)
    (s : PeerServer)
    (p : Nat) :
    s.Emits (completeDownload sha1 env s p) := by
  apply Emits.nothing
  have hSave :
      ∀ (s : PeerServer) (dl : Download),
        (dlSaveBuffer env s dl).1.sent = s.sent := by
    intro s dl
    unfold dlSaveBuffer
    split
    · dsimp only
      split <;> rfl
    · rfl
  have hState :
      ∀ (reset : Prop) [Decidable reset] (s : PeerServer)
        (i : Nat) (st : ChunkState),
        (if reset then s.setState i st else s).sent =
          s.sent := by
    intro reset _ s i st
    split <;> rfl
  simp only [completeDownload, hState]
  split
  · exact hSave _ _
  · rfl

theorem checkPeer_emits
    (env : Env)
    (s : PeerServer)
    (i : Nat) :
    s.Emits (checkPeer env s i) := by
  have hDown : s.Emits (checkDownloading env s i) := by
    have hChecked := checkDownload_emits env s i
    unfold checkDownloading
    split
    · split
      rename_i s' cnt hOut
      rw [hOut] at hChecked
      split
      · refine hChecked.trans (Emits.nothing ?_)
        unfold abortDownload
        dsimp only
        split <;> rfl
      · exact hChecked
    · exact Emits.nothing rfl
  have hUp :
      ∀ s : PeerServer,
        s.Emits (checkUploading env s i) := by
    intro s
    have hChecked := checkUpload_emits env s i
    unfold checkUploading
    split
    · split
      rename_i s' cnt hOut
      rw [hOut] at hChecked
      split
      · refine hChecked.trans (Emits.nothing ?_)
        unfold abortUpload
        dsimp only
        split <;> rfl
      · exact hChecked
    · exact Emits.nothing rfl
  unfold checkPeer
  split
  · exact hDown.trans (hUp _)
  · exact Emits.nothing rfl

theorem checkLoop_emits
    (env : Env)
    (k i : Nat)
    (s : PeerServer) :
    s.Emits (checkLoop env k i s) := by
  induction k generalizing i s with
  | zero => exact Emits.nothing rfl
  | succ k ih =>
      exact (checkPeer_emits env s i).trans (ih (i + 1) _)

/-
  The event ends with another broadcast, decided in the
  state `s'`.
-/
def AsksAgain
    (sha1 : List Byte → Nat → Byte)
    (s : PeerServer)
    (e : ServerEvent)
    (s' : PeerServer) : Prop :=
  match e with
  | .packet env pkt sender =>
      ∃ p,
        Completes env s pkt sender p ∧
          let done :=
            completeDownload sha1 env
              (updateDownload env s p pkt) p
          0 < done.dlRemain ∧
            s' =
              refreshLoop env done.peerlist.count 0 done ∧
            BroadcastsAgain env s'
  | .timeout env =>
      let checked := checkLoop env s.peerlist.count 0 s
      0 < checked.dlRemain ∧
        s' =
          refreshLoop env checked.peerlist.count 0 checked ∧
        BroadcastsAgain env s'
  | .command _ _ _ _ => False

/-
  When it asks again, every slice of the list still has a
  chunk to ask for.
-/
def AsksForUnfetched
    (sha1 : List Byte → Nat → Byte)
    (s : PeerServer)
    (e : ServerEvent) : Prop :=
  ∀ s', AsksAgain sha1 s e s' → s'.getchunks.SlicesUnfetched

/- A parsed list is asked for as a whole. -/
theorem parseChunk_slicesUnfetched
    {cl cl' : ChunkList}
    {file : Option (List Char)}
    (hParse : parseChunk cl file = some cl') :
    cl'.SlicesUnfetched := by
  intro m hm
  have hStart := slice_start_lt hm
  refine ⟨hashNumPkt * m, Nat.le_refl _, ?_, hStart,
    parseChunk_unfetched hParse hStart⟩
  simp only [hashNumPkt_eq]
  omega

end BtPeer

------------------------------------------------------------
-- Acceptable Emissions
------------------------------------------------------------

namespace BtPeer

open PeerServer
open EventMachine

theorem handleWhohas_emits
    (env : Env)
    (s : PeerServer)
    (pkt : Packet)
    (p : Nat) :
    s.Emits (handleWhohas env s pkt p) := by
  unfold handleWhohas
  split
  · exact Emits.nothing rfl
  · dsimp only
    split
    · exact Emits.nothing rfl
    · exact (Emits.nothing rfl).trans
        (sendIhave_emits env _ pkt p)

theorem handleIhave_emits
    (env : Env)
    (s : PeerServer)
    (pkt : Packet)
    (p : Nat) :
    s.Emits (handleIhave env s pkt p) := by
  have hParse
      (s : PeerServer) :
      (parseDownload env s pkt p).1.sent = s.sent := by
    unfold parseDownload
    split <;> rfl
  unfold handleIhave
  dsimp only
  split
  · exact Emits.nothing rfl
  · have hSame :=
      hParse (s.setPeer p { s.peer p with isAlive := true })
    split
    · rename_i s' hOut
      rw [hOut] at hSame
      exact Emits.nothing hSame
    · rename_i s' hOut
      rw [hOut] at hSame
      split
      · exact Emits.nothing hSame
      · exact (Emits.nothing hSame).trans
          (trySendGet_emits env s' p)

theorem handleGet_emits
    (env : Env)
    (s : PeerServer)
    (pkt : Packet)
    (p : Nat) :
    s.Emits (handleGet env s pkt p) := by
  unfold handleGet
  split
  · exact Emits.nothing rfl
  · split
    · exact Emits.nothing rfl
    · split
      · exact Emits.nothing rfl
      · rename_i hasIndex hFound
        dsimp only
        have hFreed :
            s.Emits
              (if (s.peer p).isUploading then finishUpload s p
              else s) := by
          split <;> exact Emits.nothing rfl
        exact (hFreed.trans
          (startUpload_emits env _ p hasIndex)).trans
            (Emits.nothing rfl)

theorem handleAck_emits
    (env : Env)
    (s : PeerServer)
    (pkt : Packet)
    (p : Nat) :
    s.Emits (handleAck env s pkt p) := by
  have hUpdate := updateUpload_emits env s p pkt
  unfold handleAck
  split
  · exact Emits.nothing rfl
  · dsimp only
    split
    · exact hUpdate.trans (Emits.nothing rfl)
    · exact hUpdate

/- A packet that completes no download asks for nothing. -/
theorem packet_emits
    (sha1 : List Byte → Nat → Byte)
    (env : Env)
    (s : PeerServer)
    (pkt : Packet)
    (sender : Address)
    (hQuiet : ∀ p, ¬ Completes env s pkt sender p) :
    s.Emits (s.step sha1 (.packet env pkt sender)) := by
  simp only [PeerServer.step]
  split
  case isFalse => exact Emits.nothing rfl
  rename_i hValid
  unfold parsePacket
  cases hSender : addr2Index s sender with
  | none => exact Emits.nothing rfl
  | some p =>
      dsimp only
      split
      · exact handleWhohas_emits env s pkt p
      · exact handleIhave_emits env s pkt p
      · exact handleGet_emits env s pkt p
      · rename_i hType
        unfold handleData
        split
        · exact Emits.nothing rfl
        · rename_i hActive
          simp only [Bool.or_eq_true, Bool.not_eq_true',
            not_or, Bool.not_eq_false] at hActive
          dsimp only
          split
          · rename_i hFinished
            rw [updateDownload_dl] at hFinished
            exact absurd
              ⟨hValid, hType, hSender, hActive.1, hActive.2,
                hFinished⟩
              (hQuiet p)
          · exact updateDownload_emits env s p pkt
      · exact handleAck_emits env s pkt p
      · exact Emits.nothing rfl

/- The end of an event that may ask again. -/
theorem refresh_acceptable_iff
    (env : Env)
    {s s' : PeerServer}
    (hEmits : s.Emits s') :
    (if 0 < s'.dlRemain then refreshChunkDownload env s'
        else s').AllAcceptable ↔
      s.AllAcceptable ∧
        ∀ s'',
          0 < s'.dlRemain ∧
              s'' =
                refreshLoop env s'.peerlist.count 0 s' ∧
              BroadcastsAgain env s'' →
            s''.getchunks.SlicesUnfetched := by
  by_cases hRemain : 0 < s'.dlRemain
  · rw [if_pos hRemain]
    unfold refreshChunkDownload
    rw [askAgain_acceptable_iff,
      (hEmits.trans
        (refreshLoop_emits env _ 0 s')).allAcceptable_iff]
    constructor
    · rintro ⟨hOld, hSlices⟩
      refine ⟨hOld, ?_⟩
      rintro s'' ⟨_, rfl, hAgain⟩
      exact hSlices hAgain
    · rintro ⟨hOld, hSlices⟩
      exact ⟨hOld, fun hAgain =>
        hSlices _ ⟨hRemain, rfl, hAgain⟩⟩
  · rw [if_neg hRemain, hEmits.allAcceptable_iff]
    constructor
    · intro hOld
      exact ⟨hOld, fun s'' hAsks => absurd hAsks.1 hRemain⟩
    · exact fun hBoth => hBoth.1

/-
  After an event everything sent is acceptable exactly when
  it was before and the event asks for unfetched chunks.
-/
theorem step_acceptable_iff
    (sha1 : List Byte → Nat → Byte)
    (s : PeerServer)
    (e : ServerEvent) :
    (s.step sha1 e).AllAcceptable ↔
      s.AllAcceptable ∧ AsksForUnfetched sha1 s e := by
  cases e with
  | packet env pkt sender =>
      by_cases hDone : ∃ p, Completes env s pkt sender p
      · rcases hDone with ⟨p, hDone⟩
        have hFinished := hDone.finished
        rw [← updateDownload_dl] at hFinished
        have hEmits :=
          (updateDownload_emits env s p pkt).trans
            (completeDownload_emits sha1 env _ p)
        rw [step_data sha1 env hDone.valid hDone.type
          hDone.sender hDone.alive hDone.downloading]
        dsimp only
        rw [if_pos hFinished,
          refresh_acceptable_iff env hEmits]
        apply and_congr_right
        intro _
        constructor
        · rintro hSlices s' ⟨q, hOther, hAsks⟩
          have hSame : q = p := by
            have hBoth := hOther.sender.symm.trans hDone.sender
            exact Option.some.inj hBoth
          subst hSame
          exact hSlices s' hAsks
        · intro hSlices s' hAsks
          exact hSlices s' ⟨p, hDone, hAsks⟩
      · have hQuiet := not_exists.mp hDone
        rw [(packet_emits sha1 env s pkt sender
          hQuiet).allAcceptable_iff]
        constructor
        · intro hOld
          refine ⟨hOld, ?_⟩
          rintro s' ⟨p, hDone, _⟩
          exact absurd hDone (hQuiet p)
        · exact fun hBoth => hBoth.1
  | timeout env =>
      exact refresh_acceptable_iff env
        (checkLoop_emits env s.peerlist.count 0 s)
  | command env chunkfile outputfile text =>
      have hNever :
          AsksForUnfetched sha1 s
            (.command env chunkfile outputfile text) :=
        fun s' hAsks => hAsks.elim
      rw [and_iff_left hNever]
      simp only [PeerServer.step, processGet]
      split
      · exact Iff.rfl
      · split
        · exact Iff.rfl
        · split
          · exact Iff.rfl
          · rename_i getchunks hParse
            have hSlices := parseChunk_slicesUnfetched hParse
            have hSend :=
              sendWhohas_acceptable_iff env
                { s with
                  dlFilename := outputfile
                  getchunkFile := chunkfile
                  getchunks := getchunks
                  dlRemain := getchunks.count }
            exact hSend.trans
              (and_iff_left (fun _ => hSlices))

/-
  On every run of a server: what it emits is acceptable to a
  receiver exactly when it asks again only while every slice
  of the list has an unfetched chunk.
-/
theorem emissions_acceptable_iff
    (sha1 : List Byte → Nat → Byte)
    (addrs : List Address)
    (masterChunk : Nat → Byte)
    (haschunks : ChunkList)
    (maxConn : Int)
    (files : CString → ByteMemory.SparseFile Byte)
    (es : List ServerEvent) :
    let start :=
      peerInit addrs masterChunk haschunks maxConn files
    (∀ d ∈ (run (PeerServer.step sha1) start es).sent,
        d.pkt.Acceptable) ↔
      Along (PeerServer.step sha1) (AsksForUnfetched sha1)
        start es := by
  intro start
  have hRun :
      ∀ s : PeerServer,
        (run (PeerServer.step sha1) s es).AllAcceptable ↔
          s.AllAcceptable ∧
            Along (PeerServer.step sha1)
              (AsksForUnfetched sha1) s es := by
    induction es with
    | nil =>
        intro s
        exact (and_iff_left trivial).symm
    | cons e es ih =>
        intro s
        rw [run_cons, ih (s.step sha1 e),
          step_acceptable_iff, and_assoc]
        rfl
  have hStart : start.AllAcceptable := by
    intro d hMem
    cases hMem
  exact (hRun start).trans (and_iff_right hStart)

end BtPeer

------------------------------------------------------------
-- An Empty Request
------------------------------------------------------------

namespace BtPeer

open PeerServer
open EventMachine

/-
  The queue of peer `p` and the time of the last broadcast
  are as they were.
-/
structure SameQueue
    (p : Nat)
    (s s' : PeerServer) : Prop where
  queue : (s'.peer p).hasqueue = (s.peer p).hasqueue
  lastWhohas : s'.lastWhohas = s.lastWhohas

theorem updateDownload_sameQueue
    (env : Env)
    (s : PeerServer)
    (p : Nat)
    (pkt : Packet) :
    SameQueue p s (updateDownload env s p pkt) := by
  refine ⟨?_, rfl⟩
  unfold updateDownload
  simp only [sendAll_peer, setPeer_peer, if_true]

theorem completeDownload_sameQueue
    (sha1 : List Byte → Nat → Byte)
    (env : Env)
    (s : PeerServer)
    (p : Nat) :
    SameQueue p s (completeDownload sha1 env s p) := by
  have hSave :
      ∀ (s : PeerServer) (dl : Download),
        SameQueue p s (dlSaveBuffer env s dl).1 := by
    intro s dl
    unfold dlSaveBuffer
    split
    · dsimp only
      split <;> exact ⟨rfl, rfl⟩
    · exact ⟨rfl, rfl⟩
  have hState :
      ∀ (reset : Prop) [Decidable reset] (s' : PeerServer)
        (i : Nat) (st : ChunkState),
        SameQueue p s s' →
          SameQueue p s
            (if reset then s'.setState i st else s') := by
    intro reset _ s' i st hSame
    split
    · exact ⟨hSame.queue, hSame.lastWhohas⟩
    · exact hSame
  simp only [completeDownload]
  apply hState
  have hEnded :
      SameQueue p s
        (({ s with dlNum := s.dlNum - 1 } : PeerServer).setPeer
          p { s.peer p with isDownloading := false }) := by
    refine ⟨?_, rfl⟩
    simp only [setPeer_peer, if_true]
  split
  · have hSaved := hSave
      (({ s with dlNum := s.dlNum - 1 } : PeerServer).setPeer
        p { s.peer p with isDownloading := false })
    exact ⟨(hSaved _).queue.trans hEnded.queue,
      (hSaved _).lastWhohas.trans hEnded.lastWhohas⟩
  · exact hEnded

/- The segments before the last one leave the queue alone. -/
theorem run_deliver_sameQueue
    (sha1 : List Byte → Nat → Byte)
    (env : Env)
    {p : Nat}
    {sender : Address}
    {s : PeerServer}
    (hStart : Delivered 0 sender p s)
    {pkts : Nat → Packet}
    (hSegments :
      ∀ k, k < lastSeq → IsSegment (k + 1) (pkts k))
    {n : Nat}
    (hMore : n < lastSeq) :
    SameQueue p s
      (run (PeerServer.step sha1) s
        (deliver env pkts sender n)) := by
  induction n with
  | zero => exact ⟨rfl, rfl⟩
  | succ n ih =>
      have hLess := Nat.lt_of_succ_lt hMore
      have hBefore := ih hLess
      have hDelivered :=
        (run_deliver sha1 env hStart hSegments hLess).2
      have hStep :=
        (step_delivered_eq sha1 env hDelivered hMore
          (hSegments n hLess)).1
      rw [deliver_succ, run_concat, hStep]
      have hSame :=
        updateDownload_sameQueue env
          (run (PeerServer.step sha1) s
            (deliver env pkts sender n)) p (pkts n)
      exact ⟨hSame.queue.trans hBefore.queue,
        hSame.lastWhohas.trans hBefore.lastWhohas⟩

/- Nobody with an empty queue is asked for a chunk. -/
theorem refreshLoop_of_empty
    (env : Env)
    {s : PeerServer}
    (hEmpty : (s.peer 0).hasqueue = []) :
    refreshLoop env 1 0 s = s := by
  have hNone : trySendGet env s 0 = s := by
    simp only [trySendGet, findUnfetchedChunk, hEmpty,
      searchQueue]
  simp only [refreshLoop]
  split
  · rfl
  · split
    · rfl
    · exact hNone

/- 75 lines, the last of them with the zero hash. -/
def longText : List Char :=
  (List.replicate 74
      (['0', ' '] ++ List.replicate 40 'a' ++ ['\n'])).flatten ++
    (['0', ' '] ++ zeroHash)

/- The peer has the last chunk of the list. -/
def longListEvents : List ServerEvent :=
  [.command sampleEnv ['c'] ['o'] (some longText),
    .packet sampleEnv (samplePacket .ihave) sampleAddress]

/- The last chunk of the list is being downloaded. -/
theorem longListEvents_spec :
    let s :=
      run (PeerServer.step (fun _ _ => 0)) sampleServer
        longListEvents
    addr2Index s sampleAddress = some 0 ∧
      (s.peer 0).isAlive = true ∧
      (s.peer 0).isDownloading = true ∧
      (s.peer 0).hasqueue = [] ∧
      s.lastWhohas = 1 ∧
      (s.peer 0).dl.getIndex = 74 ∧
      s.dlNum = 1 ∧
      s.dlRemain = 75 ∧
      s.getchunks.count = 75 ∧
      s.peerlist.count = 1 ∧
      (s.getchunks.chunks 74).sha1 = zeroHash := by
  decide +kernel

/- The chunk is complete 6 s after the broadcast. -/
def lateEnv : Env :=
  { sampleEnv with refreshNow := 6001 }

/- The books behind a download that was written in full. -/
theorem finishDownload_full
    {b b' : Books}
    {p : Nat}
    {w : Option Write}
    (hFull : fullWrite w = true)
    (hDone : b' = b.finishDownload p w) :
    b'.dlRemain = b.dlRemain - 1 ∧
      b'.dlNum = b.dlNum - 1 ∧
      b'.count = b.count ∧
      b'.getchunks.count = b.getchunks.count ∧
      b'.state (b.slot p).getIndex = .fetched := by
  have hSame := b.finishDownload_connections p w
  subst hDone
  refine ⟨?_, hSame.dlNum, hSame.count,
    Books.finishDownload_getchunks_count _ _ _, ?_⟩
  · rw [Books.finishDownload_dlRemain, if_pos hFull]
  · rw [Books.finishDownload_state_self,
      if_pos (Or.inl hFull)]

/- A download that completes with the right hash. -/
theorem completeDownload_full
    {sha1 : List Byte → Nat → Byte}
    {env : Env}
    {s : PeerServer}
    {p : Nat}
    (hHash :
      ∀ data,
        binary2hex (sha1 data) sha1HashSize =
          (s.getchunks.chunks
            (s.peer p).dl.getIndex).sha1.take
              sha1HashStrSize)
    (hOpen : env.openOk = true)
    (hWritten : btChunkSize ≤ env.written)
    (pkt : Packet) :
    ∃ w,
      fullWrite w = true ∧
        (completeDownload sha1 env
            (updateDownload env s p pkt) p).books =
          s.books.finishDownload p w := by
  rcases lastWrite_of_hash hHash hOpen pkt with
    ⟨buffer, hWrite⟩
  have hBooks :=
    completeDownload_books sha1 env
      (updateDownload env s p pkt) p
  rw [updateDownload_books] at hBooks
  refine ⟨_, ?_, hBooks.trans (congrArg _ hWrite)⟩
  rw [Nat.min_eq_right hWritten]
  exact fullWrite_chunk _ _

/- An idle server with nobody to ask broadcasts again. -/
theorem idle_broadcasts
    {s : PeerServer}
    (hNum : s.dlNum = 0)
    (hRemain : s.dlRemain = 74)
    (hPeers : s.peerlist.count = 1)
    (hQueue : (s.peer 0).hasqueue = [])
    (hLast : s.lastWhohas = 1) :
    refreshLoop lateEnv s.peerlist.count 0 s = s ∧
      BroadcastsAgain lateEnv s := by
  constructor
  · rw [hPeers]
    exact refreshLoop_of_empty lateEnv hQueue
  · refine ⟨⟨hNum, ?_, ?_⟩, ?_⟩
    · rw [hRemain]
      decide
    · rw [hLast]
      decide
    · rw [hPeers]
      decide

/- The second slice of 75 chunks is the last chunk alone. -/
theorem fetched_not_asked
    {cl : ChunkList}
    (hCount : cl.count = 75)
    (hFetched : (cl.chunks 74).state = .fetched) :
    ¬ cl.SlicesUnfetched := by
  intro hSlices
  rcases hSlices 1 (by rw [hCount]; decide) with
    ⟨j, hLow, _, hHigh, hUnfetched⟩
  rw [hCount] at hHigh
  simp only [hashNumPkt_eq] at hLow
  have hj : j = 74 := by omega
  rw [hj, hFetched] at hUnfetched
  cases hUnfetched

/-
  A server that has only the last chunk of a long list to
  wait for completes it 6 s after the broadcast.
-/
theorem completion_asks_for_nothing
    {s : PeerServer}
    (hStart : Delivered 0 sampleAddress 0 s)
    (hQueue : (s.peer 0).hasqueue = [])
    (hLast : s.lastWhohas = 1)
    (hIndex : (s.peer 0).dl.getIndex = 74)
    (hNum : s.dlNum = 1)
    (hRemain : s.dlRemain = 75)
    (hCount : s.getchunks.count = 75)
    (hPeers : s.peerlist.count = 1)
    (hHash : (s.getchunks.chunks 74).sha1 = zeroHash) :
    ¬ (run (PeerServer.step (fun _ _ => 0)) s
      (deliver sampleEnv sampleSegment sampleAddress 511 ++
        [.packet lateEnv (sampleSegment 511)
          sampleAddress])).AllAcceptable := by
  have hSameRun :=
    run_deliver_sameQueue (fun _ _ => 0) sampleEnv hStart
      (fun _ hk => sampleSegment_isSegment hk)
      (show 511 < lastSeq by decide)
  rcases deliver_completes (fun _ _ => 0) sampleEnv hStart
      (fun _ hk => sampleSegment_isSegment hk) with
    ⟨hBooks, hEarly⟩
  rw [run_concat]
  generalize
    run (PeerServer.step (fun _ _ => 0)) s
      (deliver sampleEnv sampleSegment sampleAddress 511) =
        s' at hSameRun hBooks hEarly ⊢
  have hDone :
      Completes lateEnv s' (sampleSegment 511) sampleAddress
        0 :=
    ⟨hEarly.valid, hEarly.type, hEarly.sender, hEarly.alive,
      hEarly.downloading, hEarly.finished⟩
  have hSaved :
      ∀ data,
        binary2hex ((fun _ _ => 0 : List Byte → Nat → Byte) data)
            sha1HashSize =
          (s'.getchunks.chunks
            (s'.peer 0).dl.getIndex).sha1.take
              sha1HashStrSize := by
    intro data
    rw [chunk_of_books hBooks 0, hIndex, hHash]
    rfl
  rcases @completeDownload_full (fun _ _ => 0) lateEnv s' 0
      hSaved rfl (Nat.le_refl _) (sampleSegment 511) with
    ⟨w, hFull, hWritten⟩
  rw [hBooks] at hWritten
  have hSameDone :=
    completeDownload_sameQueue (fun _ _ => 0) lateEnv
      (updateDownload lateEnv s' 0 (sampleSegment 511)) 0
  have hSameUpdate :=
    updateDownload_sameQueue lateEnv s' 0 (sampleSegment 511)
  intro hAll
  have hAsks :=
    ((step_acceptable_iff (fun _ _ => 0) s' _).mp hAll).2
  have hAsksDone :=
    fun s'' h => hAsks s'' ⟨0, hDone, h⟩
  dsimp only at hAsksDone
  generalize
    completeDownload (fun _ _ => 0) lateEnv
      (updateDownload lateEnv s' 0 (sampleSegment 511)) 0 =
        done at hAsksDone hSameDone hWritten
  rcases finishDownload_full hFull hWritten with
    ⟨hLess, hFewer, hSamePeers, hSameCount, hState⟩
  have hDoneRemain : done.dlRemain = 74 :=
    hLess.trans (congrArg (· - 1) hRemain)
  have hDoneNum : done.dlNum = 0 :=
    hFewer.trans (congrArg (· - 1) hNum)
  have hDonePeers : done.peerlist.count = 1 :=
    hSamePeers.trans hPeers
  have hDoneCount : done.getchunks.count = 75 :=
    hSameCount.trans hCount
  have hDoneQueue : (done.peer 0).hasqueue = [] := by
    rw [hSameDone.queue, hSameUpdate.queue, hSameRun.queue]
    exact hQueue
  have hDoneLast : done.lastWhohas = 1 := by
    rw [hSameDone.lastWhohas, hSameUpdate.lastWhohas,
      hSameRun.lastWhohas]
    exact hLast
  have hFetched :
      (done.getchunks.chunks 74).state = .fetched := by
    rw [← hIndex]
    exact hState
  rcases idle_broadcasts hDoneNum hDoneRemain hDonePeers
      hDoneQueue hDoneLast with ⟨hStay, hAgain⟩
  have hSlices :=
    hAsksDone done
      ⟨by rw [hDoneRemain]; decide, hStay.symm, hAgain⟩
  exact fetched_not_asked hDoneCount hFetched hSlices

/-
  The only download of a list of 75 chunks, that of the last
  one, is complete 6 s after the broadcast: the list is asked
  for again, and the second packet, for the last chunk alone,
  has a count of 0.
-/
theorem empty_whohas_emitted :
    ∃ d ∈
      (run (PeerServer.step (fun _ _ => 0)) sampleServer
        (longListEvents ++
          (deliver sampleEnv sampleSegment sampleAddress 511 ++
            [.packet lateEnv (sampleSegment 511)
              sampleAddress]))).sent,
      ¬ d.pkt.Acceptable := by
  rcases longListEvents_spec with
    ⟨hSender, hAlive, hDownloading, hQueue, hLast, hIndex,
      hNum, hRemain, hCount, hPeers, hHash⟩
  have hEmpty :=
    completion_asks_for_nothing
      ⟨hSender, hAlive, hDownloading,
        dlInit_inOrder 1 0 74 ['o']⟩
      hQueue hLast hIndex hNum hRemain hCount hPeers hHash
  rw [run_append]
  by_contra hNone
  apply hEmpty
  intro d hMem
  by_contra hBad
  exact hNone ⟨d, hMem, hBad⟩

end BtPeer
