import BtPeer.Library.Run
import BtPeer.Server.Discovery
import BtPeer.Server.Events

/-
  What becomes of the hashes that a peer announces in its
  IHAVE answers to one broadcast.

  An answer is dropped while the peer is downloading, and
  otherwise replaces the queue.

  Key definitions include:
    * `ChunkList.Wants`
    * `Hearing`
    * `Kept`
    * `LosesNothing`

  Key theorems include:
    * `handleIhave_queue`
    * `step_kept_iff`
    * `announced_kept_iff`
    * `announcement_lost`
-/

------------------------------------------------------------
-- Wanted Hashes
------------------------------------------------------------

namespace BtPeer

namespace ChunkList

/- Entry `i` is unfetched and has this hash. -/
structure Names
    (cl : ChunkList)
    (hash : CString)
    (i : Nat) : Prop where
  lt : i < cl.count
  state : (cl.chunks i).state = .unfetched
  sha1 : (cl.chunks i).sha1 = hash

/- The hash names an unfetched entry. -/
def Wants
    (cl : ChunkList)
    (hash : CString) : Prop :=
  ∃ i, cl.Names hash i

/- The other entries are named as before. -/
theorem names_setState_iff
    (cl : ChunkList)
    {st : ChunkState}
    (hState : st ≠ .unfetched)
    (hash : CString)
    (i k : Nat) :
    (cl.setState i st).Names hash k ↔
      k ≠ i ∧ cl.Names hash k := by
  constructor
  · intro hNames
    have hSt := hNames.state
    rw [setState_state] at hSt
    by_cases hSame : k = i
    · rw [if_pos hSame] at hSt
      exact absurd hSt hState
    · rw [if_neg hSame] at hSt
      have hHash := hNames.sha1
      rw [setState_sha1] at hHash
      exact ⟨hSame, hNames.lt, hSt, hHash⟩
  · rintro ⟨hOther, hNames⟩
    refine ⟨hNames.lt, ?_, ?_⟩
    · rw [setState_state, if_neg hOther]
      exact hNames.state
    · rw [setState_sha1]
      exact hNames.sha1

end ChunkList

theorem unfetchedIndex_none_iff
    (cl : ChunkList)
    (hash : CString) :
    unfetchedIndex cl hash = none ↔ ¬ cl.Wants hash := by
  unfold unfetchedIndex
  rw [List.find?_eq_none]
  constructor
  · rintro hNone ⟨i, hNames⟩
    apply hNone i (List.mem_range.mpr hNames.lt)
    rw [Bool.and_eq_true, decide_eq_true_eq,
      decide_eq_true_eq]
    exact ⟨hNames.state, hNames.sha1⟩
  · intro hNot i hi hTest
    rw [Bool.and_eq_true, decide_eq_true_eq,
      decide_eq_true_eq] at hTest
    exact hNot ⟨i, List.mem_range.mp hi, hTest.1, hTest.2⟩

theorem searchQueue_none
    {cl : ChunkList}
    {dq : List CString}
    (hNone : searchQueue cl dq = none) :
    ∀ hash ∈ dq, ¬ cl.Wants hash := by
  induction dq with
  | nil =>
      intro hash hMem
      cases hMem
  | cons first dq ih =>
      unfold searchQueue at hNone
      cases hIndex : unfetchedIndex cl first with
      | some i =>
          rw [hIndex] at hNone
          cases hNone
      | none =>
          rw [hIndex] at hNone
          cases hRest : searchQueue cl dq with
          | some found =>
              rw [hRest] at hNone
              cases hNone
          | none =>
              intro hash hMem
              rcases List.mem_cons.mp hMem with rfl | hLater
              · exact (unfetchedIndex_none_iff _ _).mp hIndex
              · exact ih hRest hash hLater

/- The search takes the first wanted hash out of the queue. -/
theorem searchQueue_some
    {cl : ChunkList}
    {dq dq' : List CString}
    {i : Nat}
    (hFound : searchQueue cl dq = some (i, dq')) :
    ∃ before hash after,
      dq = before ++ hash :: after ∧
        dq' = before ++ after ∧
        (∀ other ∈ before, ¬ cl.Wants other) ∧
        cl.Names hash i := by
  induction dq generalizing dq' with
  | nil => cases hFound
  | cons first dq ih =>
      unfold searchQueue at hFound
      cases hIndex : unfetchedIndex cl first with
      | some k =>
          rw [hIndex] at hFound
          cases hFound
          rcases unfetchedIndex_spec hIndex with
            ⟨hLt, hState, hHash⟩
          refine ⟨[], first, dq, rfl, rfl, ?_, ?_⟩
          · intro other hMem
            cases hMem
          · exact ⟨hLt, hState, hHash⟩
      | none =>
          rw [hIndex] at hFound
          cases hRest : searchQueue cl dq with
          | none =>
              rw [hRest] at hFound
              cases hFound
          | some found =>
              rcases found with ⟨k, rest⟩
              rw [hRest] at hFound
              cases hFound
              rcases ih hRest with
                ⟨before, hash, after, rfl, rfl, hBefore,
                  hNames⟩
              refine
                ⟨first :: before, hash, after, rfl, rfl, ?_,
                  hNames⟩
              intro other hMem
              rcases List.mem_cons.mp hMem with rfl | hLater
              · exact (unfetchedIndex_none_iff _ _).mp hIndex
              · exact hBefore other hLater

end BtPeer

------------------------------------------------------------
-- Events That Leave The Queue Alone
------------------------------------------------------------

namespace BtPeer

open PeerServer

/-
  The queue of peer `p` is as it was, and no entry has become
  unfetched.
-/
structure Quiet
    (p : Nat)
    (s s' : PeerServer) : Prop where
  queue : (s'.peer p).hasqueue = (s.peer p).hasqueue
  names :
    ∀ hash i,
      s'.getchunks.Names hash i → s.getchunks.Names hash i

namespace Quiet

variable {p : Nat}
variable {s s' s'' : PeerServer}

theorem refl
    (p : Nat)
    (s : PeerServer) : Quiet p s s :=
  ⟨rfl, fun _ _ hNames => hNames⟩

theorem trans
    (hQuiet : Quiet p s s')
    (hQuiet' : Quiet p s' s'') :
    Quiet p s s'' :=
  ⟨hQuiet'.queue.trans hQuiet.queue,
    fun hash i hNames =>
      hQuiet.names hash i (hQuiet'.names hash i hNames)⟩

/- Only the queue of peer `p` matters. -/
theorem setPeer
    (hQuiet : Quiet p s s')
    {q : Nat}
    {pr : Peer}
    (hQueue : q = p → pr.hasqueue = (s'.peer p).hasqueue) :
    Quiet p s (s'.setPeer q pr) := by
  refine ⟨?_, hQuiet.names⟩
  rw [setPeer_peer]
  by_cases hSame : p = q
  · rw [if_pos hSame, hQueue hSame.symm]
    exact hQuiet.queue
  · rw [if_neg hSame]
    exact hQuiet.queue

theorem send
    (hQuiet : Quiet p s s')
    (env : Env)
    (pp : PktParam) :
    Quiet p s (s'.send env pp) :=
  ⟨hQuiet.queue, hQuiet.names⟩

theorem sendAll
    (hQuiet : Quiet p s s')
    (env : Env)
    (pps : List PktParam) :
    Quiet p s (s'.sendAll env pps) :=
  ⟨hQuiet.queue, hQuiet.names⟩

theorem setState
    (hQuiet : Quiet p s s')
    (i : Nat)
    {st : ChunkState}
    (hState : st ≠ .unfetched) :
    Quiet p s (s'.setState i st) := by
  refine ⟨hQuiet.queue, ?_⟩
  intro hash k hNames
  apply hQuiet.names
  exact
    ((ChunkList.names_setState_iff _ hState hash i k).mp
      hNames).2

end Quiet

theorem sendGet_quiet
    (env : Env)
    (s : PeerServer)
    (p q i : Nat) :
    Quiet p s (sendGet env s q i) :=
  ((Quiet.refl p s).setState i (by simp)).send env _

theorem startDownload_quiet
    (env : Env)
    (s : PeerServer)
    (p q i : Nat) :
    Quiet p s (startDownload env s q i) := by
  have hPeer :
      Quiet p s
        (s.setPeer q
          { s.peer q with
            dl :=
              dlInit (env.dlInitTs q) q i s.dlFilename }) := by
    apply (Quiet.refl p s).setPeer
    rintro rfl
    rfl
  exact ⟨hPeer.queue, hPeer.names⟩

/- What `try_send_get` does once a chunk is found. -/
def beginDownload
    (env : Env)
    (s : PeerServer)
    (q i : Nat) : PeerServer :=
  let s := sendGet env s q i
  let s :=
    s.setPeer q { s.peer q with isDownloading := true }
  startDownload env s q i

theorem beginDownload_quiet
    (env : Env)
    (s : PeerServer)
    (p q i : Nat) :
    Quiet p s (beginDownload env s q i) := by
  have hGet := sendGet_quiet env s p q i
  apply Quiet.trans _ (startDownload_quiet env _ p q i)
  apply hGet.setPeer
  rintro rfl
  rfl

/- A GET to another peer. -/
theorem trySendGet_quiet
    (env : Env)
    (s : PeerServer)
    {p q : Nat}
    (hOther : q ≠ p) :
    Quiet p s (trySendGet env s q) := by
  unfold trySendGet
  cases hFind : findUnfetchedChunk s q with
  | mk s₁ found =>
      unfold findUnfetchedChunk at hFind
      cases hSearch :
          searchQueue s.getchunks (s.peer q).hasqueue with
      | none =>
          rw [hSearch] at hFind
          cases hFind
          exact Quiet.refl p s
      | some result =>
          rw [hSearch] at hFind
          cases hFind
          apply Quiet.trans _ (beginDownload_quiet env _ p q _)
          apply (Quiet.refl p s).setPeer
          intro hSame
          exact absurd hSame hOther

end BtPeer

------------------------------------------------------------
-- Packets Between The Answers
------------------------------------------------------------

namespace BtPeer

open PeerServer

/- A new value of peer `q` with its old queue. -/
theorem quiet_setPeer
    (s : PeerServer)
    (p : Nat)
    {q : Nat}
    {pr : Peer}
    (hQueue : pr.hasqueue = (s.peer q).hasqueue) :
    Quiet p s (s.setPeer q pr) := by
  apply (Quiet.refl p s).setPeer
  rintro rfl
  exact hQueue

theorem sendIhave_quiet
    (env : Env)
    (s : PeerServer)
    (pkt : Packet)
    (p q : Nat) :
    Quiet p s (sendIhave env s pkt q) := by
  have hSame := Quiet.refl p s
  unfold sendIhave
  dsimp only
  split
  · exact ⟨hSame.queue, hSame.names⟩
  · exact ⟨hSame.queue, hSame.names⟩

theorem handleWhohas_quiet
    (env : Env)
    (s : PeerServer)
    (pkt : Packet)
    (p q : Nat) :
    Quiet p s (handleWhohas env s pkt q) := by
  have hRaised :
      Quiet p s
        (s.setPeer q { s.peer q with isAlive := true }) :=
    quiet_setPeer s p rfl
  unfold handleWhohas
  split
  · exact Quiet.refl p s
  · dsimp only
    split
    · exact hRaised
    · exact hRaised.trans (sendIhave_quiet env _ pkt p q)

theorem finishUpload_quiet
    (s : PeerServer)
    (p q : Nat) :
    Quiet p s (finishUpload s q) := by
  have hPeer :
      Quiet p s
        (s.setPeer q
          { s.peer q with ul := ulDeinit (s.peer q).ul }) :=
    quiet_setPeer s p rfl
  exact ⟨hPeer.queue, hPeer.names⟩

theorem startUpload_quiet
    (env : Env)
    (s : PeerServer)
    (p q hasIndex : Nat) :
    Quiet p s (startUpload env s q hasIndex).1 := by
  have hPeer :
      ∀ ul, Quiet p s (s.setPeer q { s.peer q with ul := ul }) :=
    fun ul => quiet_setPeer s p rfl
  unfold startUpload
  rcases ulInit q hasIndex (loadData env s hasIndex) with
    ⟨ul, ok⟩
  cases ok with
  | false => exact hPeer ul
  | true =>
      dsimp only
      rcases ulSend (env.sendTs q) ul with ⟨ul', sent, ok⟩
      have hSent := (hPeer ul').sendAll env sent
      cases ok with
      | false => exact hSent
      | true => exact ⟨hSent.queue, hSent.names⟩

theorem handleGet_quiet
    (env : Env)
    (s : PeerServer)
    (pkt : Packet)
    (p q : Nat) :
    Quiet p s (handleGet env s pkt q) := by
  unfold handleGet
  split
  · exact Quiet.refl p s
  · split
    · exact Quiet.refl p s
    · split
      · exact Quiet.refl p s
      · rename_i hasIndex hFound
        dsimp only
        have hFinished :
            Quiet p s
              (if (s.peer q).isUploading then finishUpload s q
              else s) := by
          split
          · exact finishUpload_quiet s p q
          · exact Quiet.refl p s
        apply Quiet.trans hFinished
        apply Quiet.trans
          (startUpload_quiet env _ p q hasIndex)
        exact quiet_setPeer _ p rfl

theorem updateDownload_quiet
    (env : Env)
    (s : PeerServer)
    (p q : Nat)
    (pkt : Packet) :
    Quiet p s (updateDownload env s q pkt) := by
  unfold updateDownload
  rcases dlRecv env.rttNow (env.dlTs q) (s.peer q).dl pkt with
    ⟨dl, sent, ok⟩
  have hPeer :
      Quiet p s (s.setPeer q { s.peer q with dl := dl }) :=
    quiet_setPeer s p rfl
  exact hPeer.sendAll env sent

theorem updateUpload_quiet
    (env : Env)
    (s : PeerServer)
    (p q : Nat)
    (pkt : Packet) :
    Quiet p s (updateUpload env s q pkt) := by
  unfold updateUpload
  dsimp only
  rcases ulSend (env.sendTs q)
      (ulHandleAck env.rttNow (s.peer q).ul pkt.ack) with
    ⟨ul, sent, ok⟩
  have hPeer :
      Quiet p s (s.setPeer q { s.peer q with ul := ul }) :=
    quiet_setPeer s p rfl
  exact hPeer.sendAll env sent

theorem handleAck_quiet
    (env : Env)
    (s : PeerServer)
    (pkt : Packet)
    (p q : Nat) :
    Quiet p s (handleAck env s pkt q) := by
  have hUpdate := updateUpload_quiet env s p q pkt
  unfold handleAck
  split
  · exact Quiet.refl p s
  · dsimp only
    split
    · apply Quiet.trans hUpdate
      apply Quiet.trans (finishUpload_quiet _ p q)
      exact quiet_setPeer _ p rfl
    · exact hUpdate

/- A DATA packet that completes no download. -/
theorem handleData_quiet
    (sha1 : List Byte → Nat → Byte)
    (env : Env)
    (s : PeerServer)
    (pkt : Packet)
    (p q : Nat)
    (hOpen :
      (s.peer q).isAlive = true →
      (s.peer q).isDownloading = true →
      (dlRecv env.rttNow (env.dlTs q) (s.peer q).dl
        pkt).1.finished ≠ true) :
    Quiet p s (handleData sha1 env s pkt q) := by
  unfold handleData
  split
  · exact Quiet.refl p s
  · rename_i hActive
    simp only [Bool.or_eq_true, Bool.not_eq_true', not_or,
      Bool.not_eq_false] at hActive
    have hUnfinished := hOpen hActive.1 hActive.2
    rw [← updateDownload_dl] at hUnfinished
    dsimp only
    rw [if_neg hUnfinished]
    exact updateDownload_quiet env s p q pkt

/- An answer of another peer. -/
theorem handleIhave_quiet
    (env : Env)
    (s : PeerServer)
    (pkt : Packet)
    {p q : Nat}
    (hOther : q ≠ p) :
    Quiet p s (handleIhave env s pkt q) := by
  have hRaised :
      Quiet p s
        (s.setPeer q { s.peer q with isAlive := true }) :=
    quiet_setPeer s p rfl
  unfold handleIhave
  dsimp only
  generalize
    s.setPeer q { s.peer q with isAlive := true } = raised
      at hRaised ⊢
  split
  · exact hRaised
  · have hParsed :
        Quiet p s (parseDownload env raised pkt q).1 := by
      unfold parseDownload
      split
      · exact hRaised.setPeer (fun h => absurd h hOther)
      · exact hRaised.setPeer (fun h => absurd h hOther)
    cases hOut : parseDownload env raised pkt q with
    | mk parsed ok =>
    rw [hOut] at hParsed
    cases ok with
    | false => exact hParsed
    | true =>
        dsimp only at hParsed ⊢
        split
        · exact hParsed
        · exact hParsed.trans (trySendGet_quiet env _ hOther)

end BtPeer

------------------------------------------------------------
-- Answers
------------------------------------------------------------

namespace BtPeer

open PeerServer

/- A valid IHAVE packet from peer `p`. -/
structure IsAnswer
    (s : PeerServer)
    (pkt : Packet)
    (sender : Address)
    (p : Nat) : Prop where
  valid : validPacket pkt = true
  type : PacketType.ofCode pkt.type = some .ihave
  sender : addr2Index s sender = some p

instance
    (s : PeerServer)
    (pkt : Packet)
    (sender : Address)
    (p : Nat) :
    Decidable (IsAnswer s pkt sender p) :=
  decidable_of_iff
    (validPacket pkt = true ∧
      PacketType.ofCode pkt.type = some .ihave ∧
        addr2Index s sender = some p)
    ⟨fun h => ⟨h.1, h.2.1, h.2.2⟩,
      fun h => ⟨h.valid, h.type, h.sender⟩⟩

/- An answer during a download is dropped. -/
theorem handleIhave_dropped
    (env : Env)
    {s : PeerServer}
    (pkt : Packet)
    {p : Nat}
    (hBusy : (s.peer p).isDownloading = true) :
    handleIhave env s pkt p =
      s.setPeer p { s.peer p with isAlive := true } := by
  unfold handleIhave
  dsimp only
  rw [if_pos]
  rw [setPeer_peer, if_pos rfl]
  exact hBusy

/- What an answer outside a download leaves behind. -/
inductive Taken
    (env : Env)
    (s : PeerServer)
    (pkt : Packet)
    (p : Nat)
    (s' : PeerServer) : Prop where
  | failed
      (hFails : ¬ Allocates env pkt)
      (hQueue : (s'.peer p).hasqueue = [])
      (hList : s'.getchunks = s.getchunks)
  | queued
      (hAllocates : Allocates env pkt)
      (hStays :
        s.maxConn ≤ s.dlNum ∨
          ∀ hash ∈ pkt.hashes, ¬ s.getchunks.Wants hash)
      (hQueue : (s'.peer p).hasqueue = pkt.hashes)
      (hList : s'.getchunks = s.getchunks)
  | started
      (hAllocates : Allocates env pkt)
      (hRoom : s.dlNum < s.maxConn)
      (before : List CString)
      (hash : CString)
      (after : List CString)
      (i : Nat)
      (hHashes : pkt.hashes = before ++ hash :: after)
      (hBefore :
        ∀ other ∈ before, ¬ s.getchunks.Wants other)
      (hNames : s.getchunks.Names hash i)
      (hQueue : (s'.peer p).hasqueue = before ++ after)
      (hList :
        s'.getchunks = s.getchunks.setState i .fetching)

/- The list of chunks after a GET. -/
theorem beginDownload_getchunks
    (env : Env)
    (s : PeerServer)
    (q i : Nat) :
    (beginDownload env s q i).getchunks =
      s.getchunks.setState i .fetching := rfl

theorem trySendGet_taken
    {env : Env}
    {s s₁ : PeerServer}
    {pkt : Packet}
    {p : Nat}
    (hAllocates : Allocates env pkt)
    (hRoom : s.dlNum < s.maxConn)
    (hList : s₁.getchunks = s.getchunks)
    (hQueue : (s₁.peer p).hasqueue = pkt.hashes) :
    Taken env s pkt p (trySendGet env s₁ p) := by
  unfold trySendGet findUnfetchedChunk
  rw [hList, hQueue]
  cases hSearch : searchQueue s.getchunks pkt.hashes with
  | none =>
      exact .queued hAllocates
        (Or.inr (searchQueue_none hSearch)) hQueue hList
  | some found =>
      rcases found with ⟨i, dq⟩
      rcases searchQueue_some hSearch with
        ⟨before, hash, after, hHashes, rfl, hBefore, hNames⟩
      apply Taken.started hAllocates hRoom before hash after i
        hHashes hBefore hNames
      · apply Eq.trans (beginDownload_quiet env _ p p i).queue
        rw [setPeer_peer, if_pos rfl]
      · apply Eq.trans (beginDownload_getchunks env _ p i)
        exact congrArg (fun cl => cl.setState i .fetching) hList

/- An answer outside a download replaces the queue. -/
theorem handleIhave_taken
    (env : Env)
    {s : PeerServer}
    (pkt : Packet)
    {p : Nat}
    (hFree : (s.peer p).isDownloading = false) :
    Taken env s pkt p (handleIhave env s pkt p) := by
  unfold handleIhave
  dsimp only
  rw [if_neg]
  · cases hOut :
        parseDownload env
          (s.setPeer p { s.peer p with isAlive := true })
          pkt p with
    | mk parsed ok =>
    have hParse := hOut
    unfold parseDownload at hParse
    cases hLoop :
        parseDownloadLoop env pkt pkt.getChunkCnt 0 [] with
    | none =>
        rw [hLoop] at hParse
        cases hParse
        apply Taken.failed
        · intro hAllocates
          have hSome :=
            parseDownloadLoop_hashes_iff.mpr
              ⟨hAllocates, rfl⟩
          rw [hLoop] at hSome
          cases hSome
        · simp only [setPeer_peer, if_true]
        · rfl
    | some dq =>
        rcases parseDownloadLoop_hashes_iff.mp hLoop with
          ⟨hAllocates, rfl⟩
        rw [hLoop] at hParse
        cases hParse
        dsimp only
        split
        · rename_i hFull
          have hWaits : s.maxConn ≤ s.dlNum := hFull
          apply Taken.queued hAllocates (Or.inl hWaits)
          · simp only [setPeer_peer, if_true]
          · rfl
        · rename_i hRoom
          apply trySendGet_taken hAllocates
          · exact Int.not_le.mp hRoom
          · rfl
          · simp only [setPeer_peer, if_true]
  · rw [setPeer_peer, if_pos rfl, hFree]
    decide

/-
  A packet that completes no download and is no answer of
  peer `p`.
-/
theorem packet_quiet
    (sha1 : List Byte → Nat → Byte)
    (env : Env)
    {s : PeerServer}
    {pkt : Packet}
    {sender : Address}
    {p : Nat}
    (hOpen : ∀ q, ¬ Completes env s pkt sender q)
    (hNot : ¬ IsAnswer s pkt sender p) :
    Quiet p s (s.step sha1 (.packet env pkt sender)) := by
  simp only [PeerServer.step]
  split
  · rename_i hValid
    unfold parsePacket
    cases hSender : addr2Index s sender with
    | none => exact Quiet.refl p s
    | some q =>
        dsimp only
        split
        · exact handleWhohas_quiet env s pkt p q
        · rename_i hType
          apply handleIhave_quiet env s pkt
          rintro rfl
          exact hNot ⟨hValid, hType, hSender⟩
        · exact handleGet_quiet env s pkt p q
        · rename_i hType
          apply handleData_quiet sha1 env s pkt p q
          intro hAlive hDownloading hFinished
          exact hOpen q
            ⟨hValid, hType, hSender, hAlive, hDownloading,
              hFinished⟩
        · exact handleAck_quiet env s pkt p q
        · exact Quiet.refl p s
  · exact Quiet.refl p s

/- An answer reaches its handler. -/
theorem answer_step
    (sha1 : List Byte → Nat → Byte)
    (env : Env)
    {s : PeerServer}
    {pkt : Packet}
    {sender : Address}
    {p : Nat}
    (hAnswer : IsAnswer s pkt sender p) :
    s.step sha1 (.packet env pkt sender) =
      handleIhave env s pkt p := by
  simp only [PeerServer.step, if_pos hAnswer.valid,
    parsePacket, hAnswer.sender, hAnswer.type]

end BtPeer

------------------------------------------------------------
-- Announcements
------------------------------------------------------------

namespace BtPeer

open EventMachine

/-
  The server together with all the hashes that one peer has
  announced so far.
-/
structure Hearing where
  server : PeerServer
  announced : List CString

/- The hashes that peer `p` announces with an event. -/
def heard
    (s : PeerServer)
    (p : Nat) : ServerEvent → List CString
| .packet _ pkt sender =>
    if IsAnswer s pkt sender p then pkt.hashes else []
| _ => []

/- One event, with what it announces. -/
def Hearing.step
    (sha1 : List Byte → Nat → Byte)
    (p : Nat)
    (h : Hearing)
    (e : ServerEvent) : Hearing where
  server := h.server.step sha1 e
  announced := h.announced ++ heard h.server p e

/-
  Every announced hash that names an unfetched chunk is in
  the queue of peer `p`.
-/
def Kept
    (p : Nat)
    (h : Hearing) : Prop :=
  ∀ hash ∈ h.announced,
    h.server.getchunks.Wants hash →
      hash ∈ (h.server.peer p).hasqueue

/- No timeout check, no command, and no completion. -/
def Interim (s : PeerServer) : ServerEvent → Prop
| .packet env pkt sender =>
    ∀ q, ¬ Completes env s pkt sender q
| .timeout _ => False
| .command _ _ _ _ => False

/-
  The first wanted hash of the answer names one unfetched
  chunk only, or is in the answer once more.
-/
def StartsSafely
    (cl : ChunkList)
    (hashes : List CString) : Prop :=
  ∀ before hash after i k,
    hashes = before ++ hash :: after →
      (∀ other ∈ before, ¬ cl.Wants other) →
        cl.Names hash i → cl.Names hash k → i ≠ k →
          hash ∈ after

/-
  The answer is stored, repeats what is wanted of the answers
  before it, and starts no download that forgets a hash.
-/
def AnswerRepeats
    (env : Env)
    (h : Hearing)
    (pkt : Packet) : Prop :=
  (∀ hash ∈ h.announced ++ pkt.hashes,
      h.server.getchunks.Wants hash →
        Allocates env pkt ∧ hash ∈ pkt.hashes) ∧
    (h.server.dlNum < h.server.maxConn →
      Allocates env pkt →
        StartsSafely h.server.getchunks pkt.hashes)

/- A dropped answer announces nothing new that is wanted. -/
def AnswerKnown
    (p : Nat)
    (h : Hearing)
    (pkt : Packet) : Prop :=
  ∀ hash ∈ pkt.hashes,
    h.server.getchunks.Wants hash →
      hash ∈ (h.server.peer p).hasqueue

/- An event that loses no announced hash of peer `p`. -/
def LosesNothing
    (p : Nat)
    (h : Hearing) : ServerEvent → Prop
| .packet env pkt sender =>
    IsAnswer h.server pkt sender p →
      if (h.server.peer p).isDownloading then
        AnswerKnown p h pkt
      else AnswerRepeats env h pkt
| _ => True

end BtPeer

------------------------------------------------------------
-- What A Step Keeps
------------------------------------------------------------

namespace BtPeer

open PeerServer

/- The first element with a property splits a list one way. -/
theorem first_unique
    {α : Type*}
    {P : α → Prop}
    {before before' after after' : List α}
    {x x' : α}
    (hSame : before ++ x :: after = before' ++ x' :: after')
    (hBefore : ∀ y ∈ before, ¬ P y)
    (hBefore' : ∀ y ∈ before', ¬ P y)
    (hx : P x)
    (hx' : P x') :
    x = x' ∧ after = after' := by
  induction before generalizing before' with
  | nil =>
      cases before' with
      | nil =>
          cases hSame
          exact ⟨rfl, rfl⟩
      | cons y before' =>
          cases hSame
          exact absurd hx (hBefore' _ List.mem_cons_self)
  | cons y before ih =>
      cases before' with
      | nil =>
          cases hSame
          exact absurd hx' (hBefore _ List.mem_cons_self)
      | cons y' before' =>
          rw [List.cons_append, List.cons_append,
            List.cons.injEq] at hSame
          apply ih hSame.2
          · intro z hz
            exact hBefore z (List.mem_cons_of_mem y hz)
          · intro z hz
            exact hBefore' z (List.mem_cons_of_mem y' hz)

/- A quiet event keeps what was announced before it. -/
theorem Quiet.kept
    {p : Nat}
    {h h' : Hearing}
    (hQuiet : Quiet p h.server h'.server)
    (hSame : h'.announced = h.announced)
    (hKept : Kept p h) :
    Kept p h' := by
  intro hash hMem hWants
  rw [hSame] at hMem
  rw [hQuiet.queue]
  rcases hWants with ⟨i, hNames⟩
  exact hKept hash hMem ⟨i, hQuiet.names hash i hNames⟩

/- A dropped answer. -/
theorem dropped_kept_iff
    {p : Nat}
    {h : Hearing}
    {pkt : Packet}
    {s' : PeerServer}
    (hList : s'.getchunks = h.server.getchunks)
    (hQueue :
      (s'.peer p).hasqueue = (h.server.peer p).hasqueue)
    (hKept : Kept p h) :
    Kept p ⟨s', h.announced ++ pkt.hashes⟩ ↔
      AnswerKnown p h pkt := by
  unfold Kept AnswerKnown
  simp only [hList, hQueue]
  constructor
  · intro hAll hash hMem
    exact hAll hash (List.mem_append_right _ hMem)
  · intro hKnown hash hMem
    rcases List.mem_append.mp hMem with hOld | hNew
    · exact hKept hash hOld
    · exact hKnown hash hNew

/- What an answer that starts a download keeps. -/
theorem started_kept
    {env : Env}
    {h : Hearing}
    {pkt : Packet}
    (hAllocates : Allocates env pkt)
    (hRoom : h.server.dlNum < h.server.maxConn)
    {before after : List CString}
    {hash : CString}
    {i : Nat}
    (hHashes : pkt.hashes = before ++ hash :: after)
    (hBefore :
      ∀ other ∈ before,
        ¬ h.server.getchunks.Wants other)
    (hNames : h.server.getchunks.Names hash i)
    (hRepeats : AnswerRepeats env h pkt)
    {other : CString}
    (hMem : other ∈ h.announced ++ pkt.hashes)
    {k : Nat}
    (hApart : k ≠ i)
    (hOther : h.server.getchunks.Names other k) :
    other ∈ before ++ after := by
  have hIn := (hRepeats.1 other hMem ⟨k, hOther⟩).2
  rw [hHashes] at hIn
  rcases List.mem_append.mp hIn with hLeft | hRight
  · exact List.mem_append_left _ hLeft
  · apply List.mem_append_right
    rcases List.mem_cons.mp hRight with rfl | hLater
    · exact
        hRepeats.2 hRoom hAllocates before other after i k
          hHashes hBefore hNames hOther hApart.symm
    · exact hLater

/- And what it must carry for that. -/
theorem started_repeats
    {env : Env}
    {h : Hearing}
    {pkt : Packet}
    (hAllocates : Allocates env pkt)
    {before after : List CString}
    {hash : CString}
    {i : Nat}
    (hHashes : pkt.hashes = before ++ hash :: after)
    (hBefore :
      ∀ other ∈ before,
        ¬ h.server.getchunks.Wants other)
    (hNames : h.server.getchunks.Names hash i)
    (hAll :
      ∀ other ∈ h.announced ++ pkt.hashes,
        ∀ k, k ≠ i → h.server.getchunks.Names other k →
          other ∈ before ++ after) :
    AnswerRepeats env h pkt := by
  constructor
  · intro other hMem hWants
    refine ⟨hAllocates, ?_⟩
    rw [hHashes]
    by_cases hSame : other = hash
    · rw [hSame]
      exact List.mem_append_right _ List.mem_cons_self
    · rcases hWants with ⟨k, hOther⟩
      have hApart : k ≠ i := by
        rintro rfl
        exact hSame (hOther.sha1.symm.trans hNames.sha1)
      rcases List.mem_append.mp
          (hAll other hMem k hApart hOther) with
        hLeft | hRight
      · exact List.mem_append_left _ hLeft
      · exact List.mem_append_right _
          (List.mem_cons_of_mem hash hRight)
  · intro _ _ before' hash' after' j k hSplit hBefore' hj hk
      hApart
    rcases first_unique (hHashes.symm.trans hSplit) hBefore
        hBefore' ⟨i, hNames⟩ ⟨j, hj⟩ with ⟨rfl, rfl⟩
    -- One of the two entries is not the one asked for.
    have hOther :
        ∃ m, m ≠ i ∧ h.server.getchunks.Names hash m := by
      by_cases hFirst : j = i
      · refine ⟨k, ?_, hk⟩
        rw [← hFirst]
        exact hApart.symm
      · exact ⟨j, hFirst, hj⟩
    rcases hOther with ⟨m, hm, hNamed⟩
    have hMem : hash ∈ h.announced ++ pkt.hashes := by
      rw [hHashes]
      exact List.mem_append_right _
        (List.mem_append_right _ List.mem_cons_self)
    rcases List.mem_append.mp (hAll hash hMem m hm hNamed) with
      hLeft | hRight
    · exact absurd ⟨i, hNames⟩ (hBefore hash hLeft)
    · exact hRight

/- An answer that starts a download. -/
theorem started_kept_iff
    {env : Env}
    {p : Nat}
    {h : Hearing}
    {pkt : Packet}
    {s' : PeerServer}
    (hAllocates : Allocates env pkt)
    (hRoom : h.server.dlNum < h.server.maxConn)
    {before after : List CString}
    {hash : CString}
    {i : Nat}
    (hHashes : pkt.hashes = before ++ hash :: after)
    (hBefore :
      ∀ other ∈ before,
        ¬ h.server.getchunks.Wants other)
    (hNames : h.server.getchunks.Names hash i)
    (hQueue : (s'.peer p).hasqueue = before ++ after)
    (hList :
      s'.getchunks =
        h.server.getchunks.setState i .fetching) :
    Kept p ⟨s', h.announced ++ pkt.hashes⟩ ↔
      AnswerRepeats env h pkt := by
  have hIff :=
    ChunkList.names_setState_iff h.server.getchunks
      (show ChunkState.fetching ≠ .unfetched by simp)
  unfold Kept
  simp only [hList, hQueue]
  constructor
  · intro hAll
    apply started_repeats hAllocates hHashes hBefore hNames
    intro other hMem k hApart hOther
    exact
      hAll other hMem
        ⟨k, (hIff other i k).mpr ⟨hApart, hOther⟩⟩
  · rintro hRepeats other hMem ⟨k, hStill⟩
    rcases (hIff other i k).mp hStill with ⟨hApart, hOther⟩
    exact started_kept hAllocates hRoom hHashes hBefore hNames
      hRepeats hMem hApart hOther

/- An answer that is taken. -/
theorem taken_kept_iff
    {env : Env}
    {p : Nat}
    {h : Hearing}
    {pkt : Packet}
    {s' : PeerServer}
    (hTaken : Taken env h.server pkt p s') :
    Kept p ⟨s', h.announced ++ pkt.hashes⟩ ↔
      AnswerRepeats env h pkt := by
  cases hTaken with
  | failed hFails hQueue hList =>
      unfold Kept
      simp only [hList, hQueue]
      constructor
      · intro hAll
        refine ⟨?_, fun _ h => absurd h hFails⟩
        intro hash hMem hWants
        cases hAll hash hMem hWants
      · rintro ⟨hRepeats, _⟩ hash hMem hWants
        exact absurd (hRepeats hash hMem hWants).1 hFails
  | queued hAllocates hStays hQueue hList =>
      unfold Kept
      simp only [hList, hQueue]
      constructor
      · intro hAll
        constructor
        · intro hash hMem hWants
          exact ⟨hAllocates, hAll hash hMem hWants⟩
        · intro hRoom _ before hash after i k hSplit _ hi
          rcases hStays with hFull | hNone
          · omega
          · apply absurd ⟨i, hi⟩ (hNone hash _)
            rw [hSplit]
            exact List.mem_append_right _
              List.mem_cons_self
      · rintro ⟨hRepeats, _⟩ hash hMem hWants
        exact (hRepeats hash hMem hWants).2
  | started hAllocates hRoom before hash after i hHashes
      hBefore hNames hQueue hList =>
      exact started_kept_iff hAllocates hRoom hHashes hBefore
        hNames hQueue hList

/- One event keeps the announced hashes on one condition. -/
theorem step_kept_iff
    (sha1 : List Byte → Nat → Byte)
    {p : Nat}
    {h : Hearing}
    {e : ServerEvent}
    (hKept : Kept p h)
    (hInterim : Interim h.server e) :
    Kept p (h.step sha1 p e) ↔ LosesNothing p h e := by
  cases e with
  | timeout env => exact hInterim.elim
  | command env chunkfile outputfile text =>
      exact hInterim.elim
  | packet env pkt sender =>
      unfold Hearing.step heard LosesNothing
      by_cases hAnswer : IsAnswer h.server pkt sender p
      · have hStep := answer_step sha1 env hAnswer
        simp only [hAnswer, if_true, true_implies, hStep]
        by_cases hBusy : (h.server.peer p).isDownloading = true
        · rw [if_pos hBusy, handleIhave_dropped env pkt hBusy]
          apply dropped_kept_iff
          · rfl
          · rw [setPeer_peer, if_pos rfl]
          · exact hKept
        · rw [if_neg hBusy]
          apply taken_kept_iff
          apply handleIhave_taken
          exact Bool.eq_false_of_not_eq_true hBusy
      · have hQuiet :=
          packet_quiet sha1 env hInterim hAnswer
        simp only [hAnswer, if_false, false_implies, iff_true]
        exact @Quiet.kept p h ⟨_, _⟩ hQuiet
          (List.append_nil _) hKept

end BtPeer

------------------------------------------------------------
-- Announced Chunks
------------------------------------------------------------

namespace BtPeer

open EventMachine

/- The announcements do not touch the server. -/
theorem run_hearing_server
    (sha1 : List Byte → Nat → Byte)
    (p : Nat)
    (h : Hearing)
    (es : List ServerEvent) :
    (run (Hearing.step sha1 p) h es).server =
      run (PeerServer.step sha1) h.server es := by
  induction es generalizing h with
  | nil => rfl
  | cons e es ih => exact ih (h.step sha1 p e)

/-
  From a broadcast on, all that peer `p` announced and that is
  still unfetched stays in its queue exactly when no answer
  of it is dropped or replaced with a loss.
-/
theorem announced_kept_iff
    (sha1 : List Byte → Nat → Byte)
    (s : PeerServer)
    (p : Nat)
    {es : List ServerEvent}
    (hInterim :
      Along (Hearing.step sha1 p)
        (fun h e => Interim h.server e) ⟨s, []⟩ es) :
    (∀ fs, fs <+: es →
        Kept p (run (Hearing.step sha1 p) ⟨s, []⟩ fs)) ↔
      Along (Hearing.step sha1 p) (LosesNothing p) ⟨s, []⟩
        es := by
  apply throughout_iff_along (Kept p) _ _ hInterim
  · intro h e hKept hStep
    exact step_kept_iff sha1 hKept hStep
  · intro hash hMem
    cases hMem

theorem interim_of_type
    {s : PeerServer}
    {env : Env}
    {pkt : Packet}
    (sender : Address)
    (hType : PacketType.ofCode pkt.type = some .ihave) :
    Interim s (.packet env pkt sender) := by
  intro q hDone
  have hData := hDone.type
  rw [hType] at hData
  cases hData

/- A single answer for a single chunk keeps it. -/
theorem announced_kept_one_answer :
    Kept 0
      (run (Hearing.step (fun _ _ => 0) 0)
        ⟨{ sampleServer with getchunks := oneChunk }, []⟩
        [.packet sampleEnv (samplePacket .ihave)
          sampleAddress]) := by
  have hIff :=
    @announced_kept_iff (fun _ _ => 0)
      { sampleServer with getchunks := oneChunk } 0
      [.packet sampleEnv (samplePacket .ihave) sampleAddress]
      ⟨interim_of_type sampleAddress rfl, trivial⟩
  apply hIff.mpr
  · refine ⟨?_, trivial⟩
    intro _
    rw [if_neg (by decide)]
    constructor
    · intro hash hMem _
      exact ⟨fun _ _ => rfl, hMem⟩
    · intro _ _ before hash after i k _ _ hi hk hApart
      have hiLt : i < 1 := hi.lt
      have hkLt : k < 1 := hk.lt
      omega
  · exact List.prefix_refl _

end BtPeer

------------------------------------------------------------
-- A Replaced Answer
------------------------------------------------------------

namespace BtPeer

open PeerServer EventMachine

/- The hash whose bytes are all 0xaa. -/
def otherHash : CString := List.replicate 40 'a'

def otherAddress : Address where
  ip := 2
  port := 1

/- 75 lines, the first of them with the other hash. -/
def manyText : List Char :=
  (['0', ' '] ++ otherHash ++ ['\n']) ++
    (List.replicate 74
      (['0', ' '] ++ zeroHash ++ ['\n'])).flatten

/- A server with two peers that downloads one chunk a time. -/
def askingServer : PeerServer :=
  peerInit [sampleAddress, otherAddress] (fun _ => 7) oneChunk
    1 (fun _ _ => none)

/- The user asks for the 75 chunks. -/
def askForMany : ServerEvent :=
  .command sampleEnv ['c'] ['o'] (some manyText)

/- The second peer answers that it has the last chunk. -/
def askEvents : List ServerEvent :=
  [askForMany,
    .packet sampleEnv (samplePacket .ihave) otherAddress]

/- The first peer's own server has both hashes. -/
def answeringServer : PeerServer :=
  peerInit [otherAddress] (fun _ => 7)
    { count := 2
      chunks := fun i =>
        ⟨.unfetched, i, if i = 0 then otherHash else zeroHash⟩
      count_le := by decide }
    1 (fun _ _ => none)

/- What is asked for, and where the server is then. -/
theorem askEvents_spec :
    let asked :=
      run (PeerServer.step (fun _ _ => 0)) askingServer
        [askForMany]
    let s :=
      run (PeerServer.step (fun _ _ => 0)) askingServer
        askEvents
    asked.getchunks.count = 75 ∧
      selectedHashes asked.getchunks asked.getchunks
          (whohasParam asked.getchunks) 0 74 =
        otherHash :: List.replicate 73 zeroHash ∧
      selectedHashes asked.getchunks asked.getchunks
          (whohasParam asked.getchunks) 74 1 =
        [zeroHash] ∧
      addr2Index s sampleAddress = some 0 ∧
      (s.peer 0).isDownloading = false ∧
      s.dlNum = 1 ∧
      s.maxConn = 1 ∧
      s.peerlist.count = 2 ∧
      s.getchunks.count = 75 ∧
      (s.getchunks.chunks 0).state = .unfetched ∧
      (s.getchunks.chunks 0).sha1 = otherHash := by
  decide +kernel

/- The two packets that ask for 75 chunks. -/
theorem whohas_packets
    {cl : ChunkList}
    (hCount : cl.count = 75)
    (stack : Nat → Byte) :
    ∃ w₁ w₂,
      buildPackets cl stack (whohasParam cl) = [w₁, w₂] ∧
        CarriesHashes .whohas
          (selectedHashes cl cl (whohasParam cl) 0 74) w₁ ∧
        CarriesHashes .whohas
          (selectedHashes cl cl (whohasParam cl) 74 1)
          w₂ := by
  have hChunks : (whohasParam cl).chunkCount cl = 75 := hCount
  have hNum : packetNum 75 = 2 := by decide
  have hGuard :
      ¬ ((whohasParam cl).pIndex < 0 ∨
        (whohasParam cl).cIndex < 0) := by
    simp [whohasParam, PktParam.clear]
  have hBuild :
      buildPackets cl stack (whohasParam cl) =
        hashPackets cl cl (whohasParam cl) 2 0 0
          (stackPacket stack) := by
    unfold buildPackets
    rw [if_neg hGuard]
    change
      hashPackets cl cl (whohasParam cl)
        (packetNum ((whohasParam cl).chunkCount cl)) 0 0 _ = _
    rw [hChunks, hNum]
  have hFirst :
      min 75 (hashNumPkt * (0 + 1)) = 74 := by decide
  have hSecond :
      min 75 (hashNumPkt * (0 + 1 + 1)) = 75 := by decide
  rw [hBuild]
  simp only [hashPackets, hChunks, hFirst, hSecond,
    Nat.zero_max]
  refine ⟨_, _, rfl, ?_, ?_⟩
  · exact
      @hashPacket_carries cl cl (whohasParam cl) (Or.inl rfl)
        0 74 (by decide) _
  · exact
      @hashPacket_carries cl cl (whohasParam cl) (Or.inl rfl)
        74 75 (by decide) _

/- An answer while the limit on downloads is reached. -/
theorem handleIhave_full
    {env : Env}
    {s : PeerServer}
    {pkt : Packet}
    {p : Nat}
    (hFree : (s.peer p).isDownloading = false)
    (hFull : s.maxConn ≤ s.dlNum)
    (hAllocates : Allocates env pkt) :
    handleIhave env s pkt p =
      s.setPeer p
        { s.peer p with
          isAlive := true
          hasqueue := pkt.hashes } := by
  have hLoop :=
    parseDownloadLoop_hashes_iff.mpr ⟨hAllocates, rfl⟩
  unfold handleIhave parseDownload
  rw [hLoop]
  dsimp only
  rw [if_neg, if_pos]
  · simp [setPeer, PeerServer.peer]
  · exact hFull
  · rw [setPeer_peer, if_pos rfl, hFree]
    decide

/-
  While the limit is reached, the second of two answers
  replaces the first.
-/
theorem second_answer_replaces
    (sha1 : List Byte → Nat → Byte)
    {s : PeerServer}
    {hashes hashes' : List CString}
    {r₁ r₂ : Packet}
    (hFirst : CarriesHashes .ihave hashes r₁)
    (hSecond : CarriesHashes .ihave hashes' r₂)
    (hSome : hashes ≠ [])
    (hSome' : hashes' ≠ [])
    {sender : Address}
    {p : Nat}
    (hSender : addr2Index s sender = some p)
    (hFree : (s.peer p).isDownloading = false)
    (hFull : s.maxConn ≤ s.dlNum)
    {hash : CString}
    (hAnnounced : hash ∈ hashes.map spelled)
    (hWants : s.getchunks.Wants hash)
    (hGone : hash ∉ hashes'.map spelled) :
    ¬ Kept p
      (run (Hearing.step sha1 p) ⟨s, []⟩
        [.packet sampleEnv r₁ sender,
          .packet sampleEnv r₂ sender]) := by
  have hAnswer₁ : IsAnswer s r₁ sender p :=
    ⟨(hFirst.valid_iff (Or.inr rfl)).mpr hSome,
      hFirst.ofCode_type, hSender⟩
  let s₁ :=
    s.setPeer p
      { s.peer p with
        isAlive := true
        hasqueue := r₁.hashes }
  have hStep₁ : s.step sha1 (.packet sampleEnv r₁ sender) = s₁ := by
    rw [answer_step sha1 sampleEnv hAnswer₁]
    exact handleIhave_full hFree hFull (fun _ _ => rfl)
  have hAnswer₂ : IsAnswer s₁ r₂ sender p := by
    refine ⟨(hSecond.valid_iff (Or.inr rfl)).mpr hSome',
      hSecond.ofCode_type, ?_⟩
    apply Eq.trans (addr2Index_setPeer s _ sender) hSender
    rfl
  have hFree₁ : (s₁.peer p).isDownloading = false := by
    rw [setPeer_peer, if_pos rfl]
    exact hFree
  have hStep₂ :
      s₁.step sha1 (.packet sampleEnv r₂ sender) =
        s₁.setPeer p
          { s₁.peer p with
            isAlive := true
            hasqueue := r₂.hashes } := by
    rw [answer_step sha1 sampleEnv hAnswer₂]
    exact handleIhave_full hFree₁ hFull (fun _ _ => rfl)
  have hHeard : hash ∈ r₁.hashes := by
    rw [hFirst.hashes_eq (by simp)]
    exact hAnnounced
  simp only [run_cons, run_nil, Hearing.step, heard, hStep₁,
    hStep₂, hAnswer₁, hAnswer₂, if_true]
  intro hKept
  have hIn := hKept hash (by simp [hHeard]) hWants
  rw [setPeer_peer, if_pos rfl,
    hSecond.hashes_eq (by simp)] at hIn
  exact hGone hIn

/-
  Two packets ask for 75 chunks. While another peer is
  downloaded from, the answer to the second one replaces that
  to the first, and the first chunk is forgotten.
-/
theorem announcement_lost :
    let asked :=
      run (PeerServer.step (fun _ _ => 0)) askingServer
        [askForMany]
    let s :=
      run (PeerServer.step (fun _ _ => 0)) askingServer
        askEvents
    ∃ w₁ w₂ r₁ r₂ : Packet,
      buildPackets asked.getchunks sampleEnv.stack
          (whohasParam asked.getchunks) =
          [w₁, w₂] ∧
        (sendIhave sampleEnv answeringServer
            (received w₁ sampleEnv.stack) 0).sent =
          [⟨0, r₁⟩] ∧
        (sendIhave sampleEnv answeringServer
            (received w₂ sampleEnv.stack) 0).sent =
          [⟨0, r₂⟩] ∧
        let es : List ServerEvent :=
          [.packet sampleEnv (received r₁ sampleEnv.stack)
              sampleAddress,
            .packet sampleEnv (received r₂ sampleEnv.stack)
              sampleAddress]
        Along (Hearing.step (fun _ _ => 0) 0)
            (fun h e => Interim h.server e) ⟨s, []⟩ es ∧
          ¬ Kept 0
            (run (Hearing.step (fun _ _ => 0) 0) ⟨s, []⟩
              es) := by
  intro asked s
  rcases askEvents_spec with
    ⟨hCount, hHashes₁, hHashes₂, hSender, hFree, hNum, hMax, _,
      hLen, hState, hHash⟩
  rcases whohas_packets hCount sampleEnv.stack with
    ⟨w₁, w₂, hBuild, hAsk₁, hAsk₂⟩
  rw [hHashes₁] at hAsk₁
  rw [hHashes₂] at hAsk₂
  have hOffered₁ :
      offeredHashes answeringServer.haschunks
          ((otherHash :: List.replicate 73 zeroHash).map
            spelled) =
        otherHash :: List.replicate 73 zeroHash := by
    decide +kernel
  have hOffered₂ :
      offeredHashes answeringServer.haschunks
          ([zeroHash].map spelled) =
        [zeroHash] := by
    decide +kernel
  have hSend₁ :=
    (sendIhave_answer sampleEnv answeringServer
      (hAsk₁.received sampleEnv.stack) 0).2
  have hSend₂ :=
    (sendIhave_answer sampleEnv answeringServer
      (hAsk₂.received sampleEnv.stack) 0).2
  rw [hOffered₁] at hSend₁
  rw [hOffered₂] at hSend₂
  rcases hSend₁ (List.cons_ne_nil _ _) with
    ⟨r₁, hSent₁, hCarries₁⟩
  rcases hSend₂ (List.cons_ne_nil _ _) with
    ⟨r₂, hSent₂, hCarries₂⟩
  have hArrived₁ := hCarries₁.received sampleEnv.stack
  have hArrived₂ := hCarries₂.received sampleEnv.stack
  refine ⟨w₁, w₂, r₁, r₂, hBuild, hSent₁, hSent₂, ?_, ?_⟩
  · exact
      ⟨interim_of_type sampleAddress hArrived₁.ofCode_type,
        interim_of_type sampleAddress hArrived₂.ofCode_type,
        trivial⟩
  · apply second_answer_replaces (fun _ _ => 0) hArrived₁
      hArrived₂ (List.cons_ne_nil _ _) (List.cons_ne_nil _ _)
      hSender hFree (Int.le_of_eq (hMax.trans hNum.symm))
    · show otherHash ∈ _
      decide +kernel
    · refine ⟨0, ?_, hState, hHash⟩
      rw [hLen]
      decide
    · decide +kernel

end BtPeer
