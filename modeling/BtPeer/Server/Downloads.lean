import BtPeer.Server.Causality
import BtPeer.Transfer.Recovery

/-
  What an event does to the download from one peer: it is
  begun, takes one step of its own, ends, or is left alone.
  So each download of the server is a run of the receiver,
  and one whose peer has fallen silent is given up.

  Key definitions include:
    * `Receiving`
    * `Acted`, `Refreshed`
    * `ServerEvent.dlEvent`
    * `LateCheck`

  Key theorems include:
    * `step_receiving`
    * `downloads_are_runs`
    * `silent_peer_given_up`
-/

------------------------------------------------------------
-- The Receiving Side Of A Peer
------------------------------------------------------------

namespace BtPeer

/- What matters to the download from a peer. -/
structure Receiving where
  alive : Bool
  downloading : Bool
  dl : Download

def Peer.receiving (pr : Peer) : Receiving where
  alive := pr.isAlive
  downloading := pr.isDownloading
  dl := pr.dl

/- The download of a server from its peer `p`. -/
def PeerServer.receiving
    (s : PeerServer)
    (p : Nat) : Receiving :=
  (s.peer p).receiving

/-
  A download was begun between `r` and `r'`, or nothing has
  changed.
-/
inductive Refreshed
    (p : Nat)
    (r r' : Receiving) : Prop where
  | same
      (hSame : r' = r)
  | begun
      (now : Word)
      (getIndex : Nat)
      (filename : CString)
      (hAlive : r.alive = true)
      (hIdle : r.downloading = false)
      (hBegun :
        r' = ⟨true, true, dlInit now p getIndex filename⟩)

namespace Refreshed

variable {p : Nat}
variable {r r' r'' : Receiving}

theorem trans
    (hFirst : Refreshed p r r')
    (hSecond : Refreshed p r' r'') :
    Refreshed p r r'' := by
  cases hFirst with
  | same hSame =>
      subst hSame
      exact hSecond
  | begun now getIndex filename hAlive hIdle hBegun =>
      cases hSecond with
      | same hSame =>
          exact .begun now getIndex filename hAlive hIdle
            (hSame.trans hBegun)
      | begun now' getIndex' filename' hAlive' hIdle' _ =>
          rw [hBegun] at hIdle'
          cases hIdle'

/- Nothing is begun with a peer that is not alive. -/
theorem of_dead
    (hRefreshed : Refreshed p r r')
    (hDead : r.alive = false) :
    r' = r := by
  cases hRefreshed with
  | same hSame => exact hSame
  | begun now getIndex filename hAlive hIdle hBegun =>
      rw [hDead] at hAlive
      cases hAlive

end Refreshed

/- The download after one event of the receiver. -/
def DownloadEvent.apply
    (dl : Download) : DownloadEvent → Download
| .deliver now ts pkt => (dlRecv now ts dl pkt).1
| .timeout now ts => (dlCheckTimeout now ts dl).1

theorem Reassembly.step_dl
    (r : Reassembly)
    (move : DownloadEvent) :
    (r.step move).dl = move.apply r.dl := by
  cases move <;> rfl

/- A running download that is neither complete nor given up. -/
structure Download.Open (dl : Download) : Prop where
  finished : dl.finished = false
  counted : 0 ≤ dl.timeoutCnt
  spared : dl.timeoutCnt ≤ maxTimeoutCnt

/-
  What an event does to a download before the server looks
  for something else to download. `heard` says that the
  event is a packet of the peer, `move` is what the receiver
  makes of it.
-/
inductive Acted
    (heard : Prop)
    (move : Option DownloadEvent)
    (r r' : Receiving) : Prop where
  | kept
      (hDownloading : r'.downloading = r.downloading)
      (hDl : r'.dl = r.dl)
      (hAlive : r'.alive = r.alive ∨ heard ∧ r'.alive = true)
      (hMove :
        r.alive = true → r.downloading = true → move = none)
  | moved
      (e : DownloadEvent)
      (hMove : move = some e)
      (hActive : r.downloading = true)
      (hMoved : r' = ⟨r.alive, true, e.apply r.dl⟩)
      (hAlive : r.alive = true)
      (hOpen : r.dl.Open → r'.dl.Open)
  | ended
      (hEnded : r'.downloading = false)
      (hAlive : r'.alive = false ∨ heard)

end BtPeer

------------------------------------------------------------
-- Looking For Something To Download
------------------------------------------------------------

namespace BtPeer

open PeerServer

@[simp] theorem sendGet_peer
    (env : Env)
    (s : PeerServer)
    (p getIndex q : Nat) :
    (sendGet env s p getIndex).peer q = s.peer q := rfl

@[simp] theorem startDownload_peer
    (env : Env)
    (s : PeerServer)
    (p getIndex q : Nat) :
    (startDownload env s p getIndex).peer q =
      if q = p then
        { s.peer p with
          dl :=
            dlInit (env.dlInitTs p) p getIndex s.dlFilename }
      else s.peer q :=
  setPeer_peer s p q _

/- Only the peer that is asked begins a download. -/
theorem trySendGet_refreshed
    (env : Env)
    (s : PeerServer)
    (p : Nat)
    {q : Nat}
    (hAlive : (s.peer q).isAlive = true)
    (hIdle : (s.peer q).isDownloading = false) :
    Refreshed p (s.receiving p)
      ((trySendGet env s q).receiving p) := by
  unfold trySendGet findUnfetchedChunk
  cases searchQueue s.getchunks (s.peer q).hasqueue with
  | none => exact .same rfl
  | some found =>
      rcases found with ⟨i, dq⟩
      by_cases hp : p = q
      · subst hp
        refine .begun (env.dlInitTs p) i s.dlFilename hAlive
          hIdle ?_
        simp only [PeerServer.receiving, Peer.receiving,
          startDownload_peer, sendGet_peer, setPeer_peer,
          if_true, hAlive]
        rfl
      · refine .same ?_
        simp only [PeerServer.receiving, startDownload_peer,
          sendGet_peer, setPeer_peer, if_neg hp]

theorem refreshLoop_refreshed
    (env : Env)
    (p k i : Nat)
    (s : PeerServer) :
    Refreshed p (s.receiving p)
      ((refreshLoop env k i s).receiving p) := by
  induction k generalizing i s with
  | zero => exact .same rfl
  | succ k ih =>
      simp only [refreshLoop]
      split
      · exact .same rfl
      · split
        · exact ih (i + 1) s
        · rename_i hGood
          simp only [notGoodForDownload, Bool.or_eq_true,
            Bool.not_eq_true', not_or, Bool.not_eq_false,
            Bool.not_eq_true] at hGood
          exact (trySendGet_refreshed env s p hGood.1
            hGood.2).trans (ih (i + 1) _)

theorem refreshChunkDownload_refreshed
    (env : Env)
    (s : PeerServer)
    (p : Nat) :
    Refreshed p (s.receiving p)
      ((refreshChunkDownload env s).receiving p) := by
  have hLoop :=
    refreshLoop_refreshed env p s.peerlist.count 0 s
  unfold refreshChunkDownload askAgain
  split
  · exact hLoop
  · exact hLoop

end BtPeer

------------------------------------------------------------
-- Timeout Checks
------------------------------------------------------------

namespace BtPeer

open PeerServer

/- A timeout count that is not too high keeps it open. -/
theorem dlCheckTimeout_open
    {now ts : Word}
    {dl : Download}
    (hOpen : dl.Open)
    (hSpared :
      ¬ maxTimeoutCnt < (dlCheckTimeout now ts dl).2.2) :
    (dlCheckTimeout now ts dl).1.Open := by
  have hTimer :=
    lossAcks_timer lossAckNum
      { dl with timeoutCnt := dl.timeoutCnt + 1 }
  rcases dlCheckTimeout_cases now ts hOpen.finished with
    ⟨_, hSame⟩ | hLoss
  · rw [hSame]
    exact hOpen
  · rw [hLoss] at hSpared ⊢
    refine ⟨hTimer.2.trans hOpen.finished, ?_, ?_⟩
    · exact (Int.add_nonneg hOpen.counted (by decide)).trans_eq
        hTimer.1.symm
    · exact hTimer.1.trans_le (Int.not_lt.mp hSpared)

/- The second test does not touch a download it keeps. -/
theorem checkUploading_receiving
    (env : Env)
    (s : PeerServer)
    (p : Nat) :
    (checkUploading env s p).receiving p = s.receiving p ∨
      ((checkUploading env s p).receiving p).alive = false ∧
        ((checkUploading env s p).receiving p).downloading =
          false := by
  by_cases hUploading : (s.peer p).isUploading = true
  · rw [checkUploading_active env hUploading]
    split
    · right
      unfold abortUpload
      simp [PeerServer.receiving, Peer.receiving, die]
    · left
      simp [checkUpload, PeerServer.receiving,
        Peer.receiving]
  · left
    unfold checkUploading
    rw [if_neg hUploading]

/- The first test takes a step of the receiver. -/
theorem checkDownloading_receiving
    (env : Env)
    {s : PeerServer}
    {p : Nat}
    (hDownloading : (s.peer p).isDownloading = true) :
    maxTimeoutCnt <
          (dlCheckTimeout (env.dlNow p) (env.dlTs p)
            (s.peer p).dl).2.2 ∧
        ((checkDownloading env s p).receiving p).alive =
          false ∧
        ((checkDownloading env s p).receiving p).downloading =
          false ∨
      ¬ maxTimeoutCnt <
          (dlCheckTimeout (env.dlNow p) (env.dlTs p)
            (s.peer p).dl).2.2 ∧
        (checkDownloading env s p).receiving p =
          ⟨(s.peer p).isAlive, true,
            (dlCheckTimeout (env.dlNow p) (env.dlTs p)
              (s.peer p).dl).1⟩ := by
  rw [checkDownloading_active env hDownloading]
  split
  · rename_i hLate
    refine Or.inl ⟨hLate, ?_⟩
    unfold abortDownload
    simp [PeerServer.receiving, Peer.receiving, die]
  · rename_i hSpared
    refine Or.inr ⟨hSpared, ?_⟩
    simp [checkDownload, PeerServer.receiving,
      Peer.receiving, hDownloading]

theorem checkPeer_acted
    (env : Env)
    (s : PeerServer)
    (p : Nat) :
    Acted False
      (some (.timeout (env.dlNow p) (env.dlTs p)))
      (s.receiving p) ((checkPeer env s p).receiving p) := by
  unfold checkPeer
  split
  · rename_i hAlive
    have hSecond :=
      checkUploading_receiving env (checkDownloading env s p) p
    rcases hSecond with hKept | ⟨hDead, hEnded⟩
    · rw [hKept]
      by_cases hDownloading :
          (s.peer p).isDownloading = true
      · rcases checkDownloading_receiving env hDownloading with
          ⟨_, hDead, hEnded⟩ | ⟨hSpared, hSame⟩
        · exact .ended hEnded (Or.inl hDead)
        · refine .moved _ rfl hDownloading hSame hAlive ?_
          intro hOpen
          rw [hSame]
          exact dlCheckTimeout_open hOpen hSpared
      · have hSame : checkDownloading env s p = s :=
          if_neg hDownloading
        rw [hSame]
        refine .kept rfl rfl (Or.inl rfl) ?_
        intro _ hActive
        exact absurd hActive hDownloading
    · exact .ended hEnded (Or.inl hDead)
  · rename_i hDead
    refine .kept rfl rfl (Or.inl rfl) ?_
    intro hAlive
    exact absurd hAlive hDead

/- The loop does not come back to a peer. -/
theorem checkLoop_passed
    (env : Env)
    {p : Nat}
    (k i : Nat)
    (s : PeerServer)
    (hPassed : p < i) :
    (checkLoop env k i s).peer p = s.peer p := by
  induction k generalizing i s with
  | zero => rfl
  | succ k ih =>
      rw [checkLoop, ih (i + 1) _ (Nat.lt_succ_of_lt hPassed),
        checkPeer_peer_of_ne env s (Nat.ne_of_lt hPassed)]

theorem checkLoop_acted
    (env : Env)
    {p : Nat}
    (k i : Nat)
    (s : PeerServer)
    (hLow : i ≤ p)
    (hHigh : p < i + k) :
    Acted False
      (some (.timeout (env.dlNow p) (env.dlTs p)))
      (s.receiving p)
      ((checkLoop env k i s).receiving p) := by
  induction k generalizing i s with
  | zero => omega
  | succ k ih =>
      rw [checkLoop]
      by_cases hi : i = p
      · subst hi
        have hPassed :=
          checkLoop_passed env k (i + 1)
            (checkPeer env s i) (Nat.lt_succ_self i)
        rw [PeerServer.receiving, PeerServer.receiving,
          hPassed]
        exact checkPeer_acted env s i
      · have hSame :=
          checkPeer_peer_of_ne env s (Ne.symm hi)
        have hRest :=
          ih (i + 1) (checkPeer env s i) (by omega)
            (by omega)
        rw [PeerServer.receiving, hSame] at hRest
        exact hRest

end BtPeer

------------------------------------------------------------
-- Packets
------------------------------------------------------------

namespace BtPeer

open PeerServer

/- Receiving keeps a download open until it is complete. -/
theorem dlRecv_open
    {now ts : Word}
    {dl : Download}
    {pkt : Packet}
    (hOpen : dl.Open)
    (hMore : (dlRecv now ts dl pkt).1.finished = false) :
    (dlRecv now ts dl pkt).1.Open := by
  have hSame :
      (recordLength now dl pkt).timeoutCnt =
        dl.timeoutCnt := by
    unfold recordLength
    split <;> rfl
  have hCount :
      (dlRecv now ts dl pkt).1.timeoutCnt = 0 ∨
        (dlRecv now ts dl pkt).1.timeoutCnt =
          dl.timeoutCnt := by
    rw [dlRecv_running now ts hOpen.finished]
    split
    · left
      unfold acceptSegment markFinished
      split <;> rfl
    · exact Or.inr hSame
  rcases hCount with hZero | hKept
  · exact ⟨hMore, hZero.ge, hZero.trans_le (by decide)⟩
  · exact ⟨hMore, hOpen.counted.trans_eq hKept.symm,
      hKept.trans_le hOpen.spared⟩

/- Saving a chunk does not touch the peers. -/
theorem completeDownload_peer
    (sha1 : List Byte → Nat → Byte)
    (env : Env)
    (s : PeerServer)
    (p q : Nat) :
    (completeDownload sha1 env s p).peer q =
      if q = p then { s.peer p with isDownloading := false }
      else s.peer q := by
  have hSave (s : PeerServer) (dl : Download) :
      (dlSaveBuffer env s dl).1.peer q = s.peer q := by
    unfold dlSaveBuffer
    split
    · dsimp only
      split <;> rfl
    · rfl
  have hState
      (reset : Prop)
      [Decidable reset]
      (s : PeerServer)
      (i : Nat)
      (st : ChunkState) :
      (if reset then s.setState i st else s).peer q =
        s.peer q := by
    split <;> rfl
  simp only [completeDownload, hState]
  rw [apply_ite (fun s => PeerServer.peer s q), hSave,
    ite_self, setPeer_peer]
  rfl

/- The DATA branch, for the peer itself. -/
theorem handleData_acted
    (sha1 : List Byte → Nat → Byte)
    (env : Env)
    (s : PeerServer)
    (pkt : Packet)
    (p : Nat) :
    ∃ mid,
      Acted True
          (some (.deliver env.rttNow (env.dlTs p) pkt))
          (s.receiving p) mid ∧
        Refreshed p mid
          ((handleData sha1 env s pkt p).receiving p) := by
  have hDl := updateDownload_dl env s p pkt
  have hPeer :
      (updateDownload env s p pkt).receiving p =
        ⟨(s.peer p).isAlive, (s.peer p).isDownloading,
          (dlRecv env.rttNow (env.dlTs p) (s.peer p).dl
            pkt).1⟩ := by
    simp [updateDownload, PeerServer.receiving,
      Peer.receiving]
  unfold handleData
  split
  · rename_i hInactive
    refine ⟨_, .kept rfl rfl (Or.inl rfl) ?_, .same rfl⟩
    intro hAlive hDownloading
    rw [show (s.peer p).isAlive = true from hAlive,
      show (s.peer p).isDownloading = true from hDownloading]
      at hInactive
    cases hInactive
  · rename_i hActive
    simp only [Bool.or_eq_true, Bool.not_eq_true', not_or,
      Bool.not_eq_false] at hActive
    dsimp only
    split
    · have hEnded :
          ((completeDownload sha1 env
            (updateDownload env s p pkt) p).receiving
              p).downloading = false := by
        rw [PeerServer.receiving, completeDownload_peer,
          if_pos rfl]
        rfl
      refine ⟨_, .ended hEnded (Or.inr trivial), ?_⟩
      split
      · exact refreshChunkDownload_refreshed env _ p
      · exact .same rfl
    · rename_i hMore
      rw [hDl, Bool.not_eq_true] at hMore
      refine ⟨_, .moved _ rfl hActive.2 ?_ hActive.1 ?_,
        .same rfl⟩
      · rw [hPeer, hActive.2]
        rfl
      · intro hOpen
        rw [hPeer]
        exact dlRecv_open hOpen hMore

/- The DATA branch, for the other peers. -/
theorem handleData_refreshed
    (sha1 : List Byte → Nat → Byte)
    (env : Env)
    (s : PeerServer)
    (pkt : Packet)
    {p q : Nat}
    (hOther : p ≠ q) :
    Refreshed p (s.receiving p)
      ((handleData sha1 env s pkt q).receiving p) := by
  have hUpdated :
      (updateDownload env s q pkt).peer p = s.peer p := by
    simp [updateDownload, hOther]
  have hDone :
      (completeDownload sha1 env (updateDownload env s q pkt)
          q).receiving p =
        s.receiving p := by
    rw [PeerServer.receiving, completeDownload_peer,
      if_neg hOther, hUpdated]
    rfl
  unfold handleData
  split
  · exact .same rfl
  · dsimp only
    split
    · rw [← hDone]
      split
      · exact refreshChunkDownload_refreshed env _ p
      · exact .same rfl
    · exact .same (congrArg Peer.receiving hUpdated)

/- The rest of a peer may change. -/
theorem setPeer_receiving
    (s : PeerServer)
    (q : Nat)
    (pr : Peer)
    (hSame : pr.receiving = s.receiving q)
    (p : Nat) :
    (s.setPeer q pr).receiving p = s.receiving p := by
  by_cases hp : p = q
  · subst hp
    rw [PeerServer.receiving, setPeer_peer, if_pos rfl, hSame]
  · rw [PeerServer.receiving, setPeer_peer, if_neg hp]
    rfl

/- A packet of peer `q` is a sign of life of peer `q`. -/
def Woken
    (p q : Nat)
    (r r' : Receiving) : Prop :=
  r' = r ∨ p = q ∧ r' = { r with alive := true }

theorem raise_woken
    (s : PeerServer)
    (p q : Nat) :
    Woken p q (s.receiving p)
      ((s.setPeer q
        { s.peer q with isAlive := true }).receiving p) := by
  by_cases hp : p = q
  · subst hp
    right
    simp [PeerServer.receiving, Peer.receiving]
  · left
    simp [PeerServer.receiving, hp]

theorem handleWhohas_woken
    (env : Env)
    (s : PeerServer)
    (pkt : Packet)
    (p q : Nat) :
    Woken p q (s.receiving p)
      ((handleWhohas env s pkt q).receiving p) := by
  have hRaised := raise_woken s p q
  unfold handleWhohas
  split
  · exact Or.inl rfl
  · dsimp only
    split
    · exact hRaised
    · unfold sendIhave
      dsimp only
      split <;> exact hRaised

/- The queue of a peer is not part of its download. -/
theorem parseDownload_receiving
    (env : Env)
    (s : PeerServer)
    (pkt : Packet)
    (p q : Nat) :
    (parseDownload env s pkt q).1.receiving p =
      s.receiving p := by
  unfold parseDownload
  split <;> exact setPeer_receiving s q _ (by rfl) p

/- The IHAVE branch may begin a download. -/
theorem handleIhave_woken
    (env : Env)
    (s : PeerServer)
    (pkt : Packet)
    (p q : Nat) :
    ∃ mid,
      Woken p q (s.receiving p) mid ∧
        Refreshed p mid
          ((handleIhave env s pkt q).receiving p) := by
  have hAlive :
      ((s.setPeer q
        { s.peer q with isAlive := true }).receiving
          q).alive = true := by
    simp [PeerServer.receiving, Peer.receiving]
  refine ⟨_, raise_woken s p q, ?_⟩
  unfold handleIhave
  generalize
    s.setPeer q { s.peer q with isAlive := true } = raised
    at hAlive ⊢
  dsimp only
  have hParsed (p) :=
    parseDownload_receiving env raised pkt p q
  split
  · exact .same rfl
  · rename_i hIdle
    split
    · rename_i parsed hOut
      simp only [hOut] at hParsed
      exact .same (hParsed p)
    · rename_i parsed hOut
      simp only [hOut] at hParsed
      rw [← hParsed p]
      split
      · exact .same rfl
      · have hSame := hParsed q
        apply trySendGet_refreshed
        · exact (congrArg Receiving.alive hSame).trans hAlive
        · exact (congrArg Receiving.downloading hSame).trans
            (Bool.eq_false_of_not_eq_true hIdle)

theorem finishUpload_receiving
    (s : PeerServer)
    (p q : Nat) :
    (finishUpload s q).receiving p = s.receiving p :=
  setPeer_receiving s q
    { s.peer q with ul := ulDeinit (s.peer q).ul } rfl p

theorem startUpload_receiving
    (env : Env)
    (s : PeerServer)
    (p q hasIndex : Nat) :
    (startUpload env s q hasIndex).1.receiving p =
      s.receiving p := by
  have hUl (ul : Upload) :
      (s.setPeer q { s.peer q with ul := ul }).receiving p =
        s.receiving p :=
    setPeer_receiving s q _ (by rfl) p
  unfold startUpload
  split
  · exact hUl _
  · dsimp only
    split <;> exact hUl _

/- The GET branch works on the upload of a peer. -/
theorem handleGet_receiving
    (env : Env)
    (s : PeerServer)
    (pkt : Packet)
    (p q : Nat) :
    (handleGet env s pkt q).receiving p = s.receiving p := by
  unfold handleGet
  split
  · rfl
  · split
    · rfl
    · split
      · rfl
      · rename_i hasIndex _
        dsimp only
        rw [setPeer_receiving _ q _ (by rfl),
          startUpload_receiving]
        split
        · exact finishUpload_receiving s p q
        · rfl

/- So does the ACK branch. -/
theorem handleAck_receiving
    (env : Env)
    (s : PeerServer)
    (pkt : Packet)
    (p q : Nat) :
    (handleAck env s pkt q).receiving p = s.receiving p := by
  have hUpdated :
      (updateUpload env s q pkt).receiving p =
        s.receiving p :=
    setPeer_receiving s q
      { s.peer q with
        ul :=
          (ulSend (env.sendTs q)
            (ulHandleAck env.rttNow (s.peer q).ul
              pkt.ack)).1 } rfl p
  unfold handleAck
  split
  · rfl
  · dsimp only
    split
    · rw [setPeer_receiving _ q _ (by rfl),
        finishUpload_receiving]
      exact hUpdated
    · exact hUpdated

end BtPeer

------------------------------------------------------------
-- One Event
------------------------------------------------------------

namespace BtPeer

open PeerServer

/-
  What an event is to the receiver of peer `p`: a DATA packet
  of the peer, or a timeout check.
-/
def ServerEvent.dlEvent
    (start : PeerServer)
    (p : Nat) : ServerEvent → Option DownloadEvent
| .packet env pkt sender =>
    if validPacket pkt ∧ addr2Index start sender = some p ∧
        PacketType.ofCode pkt.type = some .data then
      some (.deliver env.rttNow (env.dlTs p) pkt)
    else none
| .timeout env =>
    some (.timeout (env.dlNow p) (env.dlTs p))
| .command _ _ _ _ => none

/- The event is a packet of peer `p` that is accepted. -/
def ServerEvent.Speaks
    (start : PeerServer)
    (p : Nat) : ServerEvent → Prop
| .packet _ pkt sender =>
    validPacket pkt = true ∧ addr2Index start sender = some p
| _ => False

theorem Woken.acted
    {p q : Nat}
    {r r' : Receiving}
    (hWoken : Woken p q r r')
    {heard : Prop}
    (hHeard : p = q → heard) :
    Acted heard none r r' := by
  rcases hWoken with rfl | ⟨hp, rfl⟩
  · exact .kept rfl rfl (Or.inl rfl) (fun _ _ => rfl)
  · exact .kept rfl rfl (Or.inr ⟨hHeard hp, rfl⟩)
      (fun _ _ => rfl)

theorem Acted.of_same
    {heard : Prop}
    (r : Receiving) :
    Acted heard none r r :=
  .kept rfl rfl (Or.inl rfl) (fun _ _ => rfl)

theorem Acted.mono
    {heard heard' : Prop}
    {move : Option DownloadEvent}
    {r r' : Receiving}
    (hActed : Acted heard move r r')
    (hImp : heard → heard') :
    Acted heard' move r r' := by
  cases hActed with
  | kept hDownloading hDl hAlive hMove =>
      exact .kept hDownloading hDl
        (hAlive.imp_right (And.imp_left hImp)) hMove
  | moved e hMove hActive hMoved hAlive hOpen =>
      exact .moved e hMove hActive hMoved hAlive hOpen
  | ended hEnded hAlive =>
      exact .ended hEnded (hAlive.imp_right hImp)

theorem parsePacket_receiving
    (sha1 : List Byte → Nat → Byte)
    (env : Env)
    (s : PeerServer)
    {pkt : Packet}
    (hValid : validPacket pkt = true)
    (sender : Address)
    (p : Nat) :
    ∃ mid,
      Acted
          (ServerEvent.Speaks s p (.packet env pkt sender))
          (ServerEvent.dlEvent s p (.packet env pkt sender))
          (s.receiving p) mid ∧
        Refreshed p mid
          ((parsePacket sha1 env s pkt sender).receiving
            p) := by
  have hNone
      (hNot :
        ¬ (addr2Index s sender = some p ∧
          PacketType.ofCode pkt.type = some .data)) :
      ServerEvent.dlEvent s p (.packet env pkt sender) =
        none :=
    if_neg (fun hAll => hNot hAll.2)
  unfold parsePacket
  cases hSender : addr2Index s sender with
  | none =>
      rw [hNone (by rw [hSender]; nofun)]
      exact ⟨_, .of_same _, .same rfl⟩
  | some q =>
      have hHeard (hp : p = q) :
          ServerEvent.Speaks s p (.packet env pkt sender) :=
        ⟨hValid, hp ▸ hSender⟩
      have hOther (t : PacketType)
          (hType : PacketType.ofCode pkt.type = some t)
          (hNe : t ≠ .data) :
          ServerEvent.dlEvent s p (.packet env pkt sender) =
            none := by
        apply hNone
        rw [hType]
        rintro ⟨_, hData⟩
        exact hNe (Option.some.inj hData)
      dsimp only
      split
      · rename_i hType
        rw [hOther .whohas hType nofun]
        exact ⟨_,
          (handleWhohas_woken env s pkt p q).acted hHeard,
          .same rfl⟩
      · rename_i hType
        rw [hOther .ihave hType nofun]
        rcases handleIhave_woken env s pkt p q with
          ⟨mid, hWoken, hRefreshed⟩
        exact ⟨mid, hWoken.acted hHeard, hRefreshed⟩
      · rename_i hType
        rw [hOther .get hType nofun]
        exact ⟨_, .of_same _,
          .same (handleGet_receiving env s pkt p q)⟩
      · rename_i hType
        by_cases hp : p = q
        · subst hp
          have hMove :
              ServerEvent.dlEvent s p
                  (.packet env pkt sender) =
                some
                  (.deliver env.rttNow (env.dlTs p) pkt) :=
            if_pos ⟨hValid, hSender, hType⟩
          rcases handleData_acted sha1 env s pkt p with
            ⟨mid, hActed, hRefreshed⟩
          rw [hMove]
          exact ⟨mid, hActed.mono (fun _ => hHeard rfl),
            hRefreshed⟩
        · rw [hNone (by
            rw [hSender]
            rintro ⟨hSame, _⟩
            exact hp (Option.some.inj hSame).symm)]
          exact ⟨_, .of_same _,
            handleData_refreshed sha1 env s pkt hp⟩
      · rename_i hType
        rw [hOther .ack hType nofun]
        exact ⟨_, .of_same _,
          .same (handleAck_receiving env s pkt p q)⟩
      · rename_i hData _
        rw [hNone (fun hBoth => hData hBoth.2)]
        exact ⟨_, .of_same _, .same rfl⟩

/-
  What one event does to the download from peer `p`: it acts
  on the download, and then the server may begin another one.
-/
theorem step_receiving
    (sha1 : List Byte → Nat → Byte)
    (s : PeerServer)
    (e : ServerEvent)
    {p : Nat}
    (hPeer : p < s.peerlist.count) :
    ∃ mid,
      Acted (e.Speaks s p) (e.dlEvent s p) (s.receiving p)
          mid ∧
        Refreshed p mid ((s.step sha1 e).receiving p) := by
  cases e with
  | packet env pkt sender =>
      simp only [PeerServer.step]
      split
      · rename_i hValid
        exact parsePacket_receiving sha1 env s hValid sender p
      · rename_i hInvalid
        rw [show ServerEvent.dlEvent s p
            (.packet env pkt sender) = none from
          if_neg (fun hAll => hInvalid hAll.1)]
        exact ⟨_, .of_same _, .same rfl⟩
  | timeout env =>
      have hActed :=
        checkLoop_acted env s.peerlist.count 0 s
          (Nat.zero_le p) (by omega)
      refine ⟨_, hActed.mono False.elim, ?_⟩
      simp only [PeerServer.step, checkAllTimeout]
      split
      · exact refreshChunkDownload_refreshed env _ p
      · exact .same rfl
  | command env chunkfile outputfile text =>
      refine ⟨_, .of_same _, .same ?_⟩
      simp only [PeerServer.step, processGet]
      split
      · rfl
      · split
        · rfl
        · split <;> rfl

/- The peer of a running download is alive, and it is open. -/
def Receiving.Sound (r : Receiving) : Prop :=
  r.downloading = true → r.alive = true ∧ r.dl.Open

theorem Acted.sound
    {heard : Prop}
    {move : Option DownloadEvent}
    {r r' : Receiving}
    (hActed : Acted heard move r r')
    (hSound : r.Sound) :
    r'.Sound := by
  intro hDownloading
  cases hActed with
  | kept hSame hDl hAlive hMove =>
      rcases hSound (hSame ▸ hDownloading) with
        ⟨hWas, hOpen⟩
      refine ⟨?_, hDl ▸ hOpen⟩
      rcases hAlive with hKept | hHeard
      · exact hKept.trans hWas
      · exact hHeard.2
  | moved e hMove hActive hMoved hAlive hOpen =>
      refine ⟨?_, hOpen (hSound hActive).2⟩
      rw [hMoved]
      exact hAlive
  | ended hEnded hAlive =>
      rw [hEnded] at hDownloading
      cases hDownloading

theorem Refreshed.sound
    {p : Nat}
    {r r' : Receiving}
    (hRefreshed : Refreshed p r r')
    (hSound : r.Sound) :
    r'.Sound := by
  cases hRefreshed with
  | same hSame => exact hSame ▸ hSound
  | begun now getIndex filename hAlive hIdle hBegun =>
      rw [hBegun]
      intro _
      exact ⟨rfl, rfl, Int.le_refl 0,
        show (0 : Int) ≤ maxTimeoutCnt by decide⟩

end BtPeer

------------------------------------------------------------
-- Whole Runs
------------------------------------------------------------

namespace BtPeer

open EventMachine PeerServer

/- Events mean what they meant at the start. -/
theorem SamePeers.dlEvent
    {start s : PeerServer}
    (hSame : SamePeers start s)
    (p : Nat)
    (e : ServerEvent) :
    e.dlEvent s p = e.dlEvent start p := by
  cases e with
  | packet env pkt sender =>
      simp only [ServerEvent.dlEvent, hSame.index]
  | timeout env => rfl
  | command env chunkfile outputfile text => rfl

/- Only a packet of the peer is delivered to the receiver. -/
theorem ServerEvent.speaks_of_dlEvent
    {start : PeerServer}
    {p : Nat}
    {env : Env}
    {pkt : Packet}
    {sender : Address}
    {move : DownloadEvent}
    (hMove :
      ServerEvent.dlEvent start p (.packet env pkt sender) =
        some move) :
    ServerEvent.Speaks start p (.packet env pkt sender) := by
  simp only [ServerEvent.dlEvent] at hMove
  split at hMove
  · rename_i hAll
    exact ⟨hAll.1, hAll.2.1⟩
  · cases hMove

theorem SamePeers.speaks
    {start s : PeerServer}
    (hSame : SamePeers start s)
    (p : Nat)
    (e : ServerEvent) :
    e.Speaks s p ↔ e.Speaks start p := by
  cases e with
  | packet env pkt sender =>
      simp only [ServerEvent.Speaks, hSame.index]
  | timeout env => exact Iff.rfl
  | command env chunkfile outputfile text => exact Iff.rfl

/- What the events `es` make of the download from peer `p`. -/
structure Downloads
    (sha1 : List Byte → Nat → Byte)
    (start : PeerServer)
    (p : Nat)
    (es : List ServerEvent)
    (r : Receiving) : Prop where
  sound : r.Sound
  run :
    r.downloading = true →
      ∃ before since now getIndex filename,
        es = before ++ since ∧
          (EventMachine.run (PeerServer.step sha1) start
              before).receiving p =
            ⟨true, true, dlInit now p getIndex filename⟩ ∧
          r.dl =
            (EventMachine.run Reassembly.step
              (Reassembly.start now p getIndex filename)
              (since.filterMap
                (ServerEvent.dlEvent start p))).dl

theorem Downloads.step
    {sha1 : List Byte → Nat → Byte}
    {start : PeerServer}
    {es : List ServerEvent}
    {p : Nat} :
    let s := EventMachine.run (PeerServer.step sha1) start es
    SamePeers start s →
    p < start.peerlist.count →
    Downloads sha1 start p es (s.receiving p) →
    ∀ e,
      Downloads sha1 start p (es ++ [e])
        ((s.step sha1 e).receiving p) := by
  intro s hSame hPeer hDownloads e
  rcases step_receiving sha1 s e (hSame.count ▸ hPeer) with
    ⟨mid, hActed, hRefreshed⟩
  rw [hSame.dlEvent] at hActed
  have hMid := hActed.sound hDownloads.sound
  refine ⟨hRefreshed.sound hMid, ?_⟩
  intro hDownloading
  cases hRefreshed with
  | begun now getIndex filename hAlive hIdle hBegun =>
      refine ⟨es ++ [e], [], now, getIndex, filename,
        (List.append_nil _).symm, ?_, ?_⟩
      · rw [run_concat]
        exact hBegun
      · rw [hBegun]
        rfl
  | same hKept =>
      rw [hKept] at hDownloading ⊢
      cases hActed with
      | kept hRunning hDl hAlive hMove =>
          have hWas := hRunning ▸ hDownloading
          rcases hDownloads.run hWas with
            ⟨before, since, now, getIndex, filename, hEvents,
              hFirst, hRun⟩
          have hNone := hMove (hDownloads.sound hWas).1 hWas
          refine ⟨before, since ++ [e], now, getIndex,
            filename, ?_, hFirst, ?_⟩
          · rw [hEvents, List.append_assoc]
          · rw [hDl, hRun, List.filterMap_append,
              List.filterMap_cons_none hNone,
              List.filterMap_nil, List.append_nil]
      | moved move hMove hActive hMoved hAlive hOpen =>
          rcases hDownloads.run hActive with
            ⟨before, since, now, getIndex, filename, hEvents,
              hFirst, hRun⟩
          refine ⟨before, since ++ [e], now, getIndex,
            filename, ?_, hFirst, ?_⟩
          · rw [hEvents, List.append_assoc]
          · rw [hMoved, hRun, List.filterMap_append,
              List.filterMap_cons_some hMove,
              List.filterMap_nil, run_concat,
              Reassembly.step_dl]
      | ended hEnded hAlive =>
          rw [hEnded] at hDownloading
          cases hDownloading

theorem run_downloads
    (sha1 : List Byte → Nat → Byte)
    (addrs : List Address)
    (masterChunk : Nat → Byte)
    (haschunks : ChunkList)
    (maxConn : Int)
    (files : CString → ByteMemory.SparseFile Byte)
    (es : List ServerEvent)
    {p : Nat}
    (hPeer : p < addrs.length) :
    let start :=
      peerInit addrs masterChunk haschunks maxConn files
    Downloads sha1 start p es
      ((run (PeerServer.step sha1) start es).receiving p) := by
  intro start
  induction es using List.reverseRecOn with
  | nil => exact ⟨nofun, nofun⟩
  | append_singleton es e ih =>
      rw [run_concat]
      exact Downloads.step
        (run_justified sha1 addrs masterChunk haschunks maxConn
          files es).samePeers hPeer ih e

/-
  In every reachable state, the download from a peer is the
  run of one receiver on all the DATA packets of the peer and
  all the timeout checks since it began, which it did with
  `dl_init`. The peer is alive, the chunk is incomplete, and
  no more than `MAX_TIMEOUT_CNT` timeouts were counted.
-/
theorem downloads_are_runs
    (sha1 : List Byte → Nat → Byte)
    (addrs : List Address)
    (masterChunk : Nat → Byte)
    (haschunks : ChunkList)
    (maxConn : Int)
    (files : CString → ByteMemory.SparseFile Byte)
    (es : List ServerEvent)
    (p : Nat)
    (hPeer : p < addrs.length) :
    let start :=
      peerInit addrs masterChunk haschunks maxConn files
    let r :=
      (run (PeerServer.step sha1) start es).receiving p
    r.downloading = true →
      r.alive = true ∧ r.dl.Open ∧
        ∃ before since now getIndex filename,
          es = before ++ since ∧
            (run (PeerServer.step sha1) start
                before).receiving p =
              ⟨true, true, dlInit now p getIndex filename⟩ ∧
            r.dl =
              (run Reassembly.step
                (Reassembly.start now p getIndex filename)
                (since.filterMap
                  (ServerEvent.dlEvent start p))).dl := by
  intro start r hDownloading
  have hDownloads :=
    run_downloads sha1 addrs masterChunk haschunks maxConn
      files es hPeer
  rcases hDownloads.sound hDownloading with ⟨hAlive, hOpen⟩
  exact ⟨hAlive, hOpen, hDownloads.run hDownloading⟩

/- The first DATA packet of a download. -/
theorem downloads_are_runs_first_segment :
    ∃ before since now getIndex filename,
      sampleDialogue = before ++ since ∧
        (run (PeerServer.step (fun _ _ => 0)) sampleServer
            before).receiving 0 =
          ⟨true, true, dlInit now 0 getIndex filename⟩ ∧
        ((run (PeerServer.step (fun _ _ => 0)) sampleServer
          sampleDialogue).receiving 0).dl =
            (run Reassembly.step
              (Reassembly.start now 0 getIndex filename)
              (since.filterMap
                (ServerEvent.dlEvent sampleServer 0))).dl :=
  (downloads_are_runs (fun _ _ => 0) [sampleAddress]
    (fun _ => 7) oneChunk 1 (fun _ _ => none) sampleDialogue 0
    (by decide) (by decide)).2.2

end BtPeer

------------------------------------------------------------
-- Peers That Fall Silent
------------------------------------------------------------

namespace BtPeer

open EventMachine PeerServer

/-
  A timeout check that finds the download from peer `p` idle
  for `DEFAULT_TIMEOUT`.
-/
def LateCheck
    (p : Nat)
    (s : PeerServer) : ServerEvent → Prop
| .timeout env =>
    (s.peer p).isDownloading = true ∧
      BitVec.ofNat 32 defaultTimeout ≤
        env.dlNow p - (s.peer p).dl.ts
| _ => False

instance
    (p : Nat)
    (s : PeerServer)
    (e : ServerEvent) :
    Decidable (LateCheck p s e) := by
  cases e <;> unfold LateCheck <;> infer_instance

namespace Receiving

/- The peer is not alive, and nothing comes from it. -/
structure GivenUp (r : Receiving) : Prop where
  alive : r.alive = false
  downloading : r.downloading = false

/- The timeouts counted by a running download. -/
def timeouts (r : Receiving) : Int :=
  if r.downloading then r.dl.timeoutCnt else 0

theorem Sound.timeouts_le
    {r : Receiving}
    (hSound : r.Sound) :
    r.timeouts ≤ maxTimeoutCnt := by
  unfold timeouts
  split
  · rename_i hDownloading
    exact (hSound hDownloading).2.spared
  · decide

theorem Sound.timeouts_nonneg
    {r : Receiving}
    (hSound : r.Sound) :
    0 ≤ r.timeouts := by
  unfold timeouts
  split
  · rename_i hDownloading
    exact (hSound hDownloading).2.counted
  · exact Int.le_refl 0

end Receiving

/- A download that begins has counted no timeouts. -/
theorem Refreshed.timeouts
    {p : Nat}
    {r r' : Receiving}
    (hRefreshed : Refreshed p r r') :
    r'.timeouts = r.timeouts := by
  cases hRefreshed with
  | same hSame => rw [hSame]
  | begun now getIndex filename hAlive hIdle hBegun =>
      unfold Receiving.timeouts
      rw [hBegun, hIdle]
      rfl

/- A check counts a timeout when it is late. -/
theorem dlCheckTimeout_counts
    (now ts : Word)
    {dl : Download}
    (hOpen : dl.finished = false) :
    dl.timeoutCnt +
        (if BitVec.ofNat 32 defaultTimeout ≤ now - dl.ts then 1
          else 0) ≤
      (dlCheckTimeout now ts dl).1.timeoutCnt := by
  rcases dlCheckTimeout_cases now ts hOpen with
    ⟨hEarly, hSame⟩ | hLoss
  · rw [hSame, if_neg (BitVec.not_le.mpr hEarly)]
    exact (Int.add_zero _).le
  · have hTimer :=
      lossAcks_timer lossAckNum
        { dl with timeoutCnt := dl.timeoutCnt + 1 }
    rw [hLoss]
    refine Int.le_trans ?_ hTimer.1.ge
    change _ ≤ dl.timeoutCnt + 1
    split <;> omega

/-
  Without a word from the peer, a late check counts a timeout
  or is the one too many.
-/
theorem step_silent
    (sha1 : List Byte → Nat → Byte)
    {s : PeerServer}
    {e : ServerEvent}
    {p : Nat}
    (hPeer : p < s.peerlist.count)
    (hSilent : ¬ e.Speaks s p)
    (hSound : (s.receiving p).Sound) :
    ((s.step sha1 e).receiving p).GivenUp ∨
      ((s.step sha1 e).receiving p).Sound ∧
        (s.receiving p).timeouts +
            (if LateCheck p s e then 1 else 0) ≤
          ((s.step sha1 e).receiving p).timeouts := by
  rcases step_receiving sha1 s e hPeer with
    ⟨mid, hActed, hRefreshed⟩
  have hSound' := hRefreshed.sound (hActed.sound hSound)
  rw [hRefreshed.timeouts]
  cases hActed with
  | kept hRunning hDl hAlive hMove =>
      right
      have hNotLate : ¬ LateCheck p s e := by
        cases e with
        | timeout env =>
            intro hLate
            have hNone :=
              hMove (hSound hLate.1).1 hLate.1
            cases hNone
        | _ => exact not_false
      refine ⟨hSound', ?_⟩
      rw [if_neg hNotLate, Int.add_zero]
      unfold Receiving.timeouts
      rw [hRunning, hDl]
  | moved move hMove hActive hMoved hAlive hOpen =>
      right
      refine ⟨hSound', ?_⟩
      have hTimeouts :
          (s.receiving p).timeouts =
            (s.peer p).dl.timeoutCnt :=
        if_pos hActive
      have hFinished := (hSound hActive).2.finished
      rw [hMoved, hTimeouts]
      cases e with
      | packet env pkt sender =>
          exact absurd
            (ServerEvent.speaks_of_dlEvent hMove) hSilent
      | timeout env =>
          cases hMove
          have hCounts :=
            dlCheckTimeout_counts (env.dlNow p) (env.dlTs p)
              hFinished
          have hLate :
              LateCheck p s (.timeout env) ↔
                BitVec.ofNat 32 defaultTimeout ≤
                  env.dlNow p - (s.peer p).dl.ts :=
            and_iff_right hActive
          simp only [hLate]
          exact hCounts
      | command env chunkfile outputfile text => cases hMove
  | ended hEnded hAlive =>
      left
      have hDead := hAlive.resolve_right hSilent
      rw [hRefreshed.of_dead hDead]
      exact ⟨hDead, hEnded⟩

/- A peer that was given up stays so until it speaks. -/
theorem step_givenUp
    (sha1 : List Byte → Nat → Byte)
    {s : PeerServer}
    {e : ServerEvent}
    {p : Nat}
    (hPeer : p < s.peerlist.count)
    (hSilent : ¬ e.Speaks s p)
    (hGivenUp : (s.receiving p).GivenUp) :
    ((s.step sha1 e).receiving p).GivenUp := by
  rcases step_receiving sha1 s e hPeer with
    ⟨mid, hActed, hRefreshed⟩
  have hMid : mid.GivenUp := by
    cases hActed with
    | kept hRunning hDl hAlive hMove =>
        have hSame :=
          hAlive.resolve_right (fun hBoth => hSilent hBoth.1)
        exact ⟨hSame.trans hGivenUp.alive,
          hRunning.trans hGivenUp.downloading⟩
    | moved move hMove hActive hMoved hAlive hOpen =>
        rw [hGivenUp.alive] at hAlive
        cases hAlive
    | ended hEnded hAlive =>
        exact ⟨hAlive.resolve_right hSilent, hEnded⟩
  rw [hRefreshed.of_dead hMid.alive]
  exact hMid

/-
  A peer that sends nothing more is given up, whatever the
  other peers and the user do: at the latest by the sixth
  timeout check that finds its download idle.
-/
theorem silent_peer_given_up
    (sha1 : List Byte → Nat → Byte)
    (addrs : List Address)
    (masterChunk : Nat → Byte)
    (haschunks : ChunkList)
    (maxConn : Int)
    (files : CString → ByteMemory.SparseFile Byte)
    (es fs : List ServerEvent)
    (p : Nat)
    (hPeer : p < addrs.length) :
    let start :=
      peerInit addrs masterChunk haschunks maxConn files
    let s := run (PeerServer.step sha1) start es
    (∀ e ∈ fs, ¬ e.Speaks start p) →
      maxTimeoutCnt <
          (countAlong (PeerServer.step sha1) (LateCheck p) s
            fs : Int) →
        ((run (PeerServer.step sha1) s fs).peer p).isAlive =
            false ∧
          ((run (PeerServer.step sha1) s fs).peer
            p).isDownloading = false := by
  intro start s hSilent hMany
  -- The addresses of the peers outlast any packets.
  have hJust : s.Justified (fun _ _ => True) start :=
    (run_justified sha1 addrs masterChunk haschunks maxConn
      files es).mono (fun _ _ _ => trivial)
  have hStepJust
      {s : PeerServer}
      (hJust : s.Justified (fun _ _ => True) start)
      (e : ServerEvent) :
      (s.step sha1 e).Justified (fun _ _ => True) start :=
    step_justified hJust sha1 e (fun _ _ _ => trivial)
  have hSound : (s.receiving p).Sound :=
    (run_downloads sha1 addrs masterChunk haschunks maxConn
      files es hPeer).sound
  have hForced :
      (run (PeerServer.step sha1) s fs).Justified
          (fun _ _ => True) start ∧
        ((run (PeerServer.step sha1) s fs).receiving
          p).GivenUp := by
    refine
      goal_of_countAlong
        (fun s =>
          s.Justified (fun _ _ => True) start ∧
            (s.receiving p).Sound)
        (fun s =>
          s.Justified (fun _ _ => True) start ∧
            (s.receiving p).GivenUp)
        (P := LateCheck p)
        (fun s => (s.receiving p).timeouts) maxTimeoutCnt
        ?_ ?_ (fun s hInv => hInv.2.timeouts_le)
        ⟨hJust, hSound⟩ (along_of_forall s hSilent) ?_
    · rintro s e ⟨hJust, hSound⟩ hSilent
      have hSame := hJust.samePeers
      have hStep :=
        step_silent sha1 (hSame.count ▸ hPeer)
          ((hSame.speaks p e).not.mpr hSilent) hSound
      rcases hStep with hGivenUp | hRaised
      · exact Or.inl ⟨hStepJust hJust e, hGivenUp⟩
      · exact Or.inr
          ⟨⟨hStepJust hJust e, hRaised.1⟩, hRaised.2⟩
    · rintro s e ⟨hJust, hGivenUp⟩ hSilent
      have hSame := hJust.samePeers
      exact ⟨hStepJust hJust e,
        step_givenUp sha1 (hSame.count ▸ hPeer)
          ((hSame.speaks p e).not.mpr hSilent) hGivenUp⟩
    · have hCounted := hSound.timeouts_nonneg
      omega
  exact ⟨hForced.2.alive, hForced.2.downloading⟩

/-
  After the first DATA packet, six checks come, each of them
  5000 milliseconds after the one before.
-/
def sampleSilence : List ServerEvent :=
  (List.range 6).map fun i =>
    .timeout
      { sampleEnv with
        dlNow := fun _ => BitVec.ofNat 32 (1 + 5000 * (i + 1))
        dlTs := fun _ => BitVec.ofNat 32 (1 + 5000 * (i + 1)) }

theorem silent_peer_given_up_after_six :
    ((run (PeerServer.step (fun _ _ => 0))
        (run (PeerServer.step (fun _ _ => 0)) sampleServer
          sampleDialogue) sampleSilence).peer 0).isAlive =
        false ∧
      ((run (PeerServer.step (fun _ _ => 0))
        (run (PeerServer.step (fun _ _ => 0)) sampleServer
          sampleDialogue) sampleSilence).peer
            0).isDownloading = false :=
  silent_peer_given_up (fun _ _ => 0) [sampleAddress]
    (fun _ => 7) oneChunk 1 (fun _ _ => none) sampleDialogue
    sampleSilence 0 (by decide)
    (by simp [sampleSilence, ServerEvent.Speaks]) (by decide)

end BtPeer
