import BtPeer.Server.Announce

/-
  Which peer is asked for which chunk when the server looks
  for something to download, and what it leaves undone.

  Key definitions include:
    * `NewlyStarted`
    * `GivenChunk`
    * `Assigns`
    * `Saturated`

  Key theorems include:
    * `trySendGet_gives`
    * `Assigns.cons`
    * `refreshLoop_assigns`
    * `refreshLoop_saturates`
    * `refreshChunkDownload_conserves`
-/

------------------------------------------------------------
-- Assignments
------------------------------------------------------------

namespace BtPeer

/- The download from peer `p` has begun in between. -/
structure NewlyStarted
    (s s' : PeerServer)
    (p : Nat) : Prop where
  before : (s.peer p).isDownloading = false
  after : (s'.peer p).isDownloading = true

/-
  Peer `p`, which was free, is asked for chunk `i`, which was
  unfetched. The node that named it has left the queue.
-/
structure GivenChunk
    (s s' : PeerServer)
    (p i : Nat) : Prop where
  peer : p < s.peerlist.count
  alive : (s.peer p).isAlive = true
  index : (s'.peer p).dl.getIndex = i
  queue :
    ∃ before hash after,
      (s.peer p).hasqueue = before ++ hash :: after ∧
        s.getchunks.Names hash i ∧
        (s'.peer p).hasqueue = before ++ after
  chunk :
    s'.getchunks.chunks i =
      { s.getchunks.chunks i with state := .fetching }

/-
  The downloads begun in between are the whole difference of
  the peers and of the chunk states, and no two of them are
  for the same chunk.
-/
structure Assigns
    (s s' : PeerServer) : Prop where
  given :
    ∀ p, NewlyStarted s s' p → ∃ i, GivenChunk s s' p i
  distinct :
    ∀ p q, NewlyStarted s s' p → NewlyStarted s s' q →
      (s'.peer p).dl.getIndex = (s'.peer q).dl.getIndex →
        p = q
  peers :
    ∀ p, ¬ NewlyStarted s s' p → s'.peer p = s.peer p
  chunks :
    ∀ i,
      (∀ p, NewlyStarted s s' p →
        (s'.peer p).dl.getIndex ≠ i) →
        s'.getchunks.chunks i = s.getchunks.chunks i
  peerCount : s'.peerlist.count = s.peerlist.count
  listCount : s'.getchunks.count = s.getchunks.count
  maxConn : s'.maxConn = s.maxConn

/-
  All connections are taken, or no free peer from `low` on
  below `high` has a chunk that is still unfetched.
-/
def Saturated
    (low high : Nat)
    (s : PeerServer) : Prop :=
  s.maxConn ≤ s.dlNum ∨
    ∀ p, low ≤ p → p < high →
      (s.peer p).isAlive = true →
      (s.peer p).isDownloading = false →
        ∀ hash ∈ (s.peer p).hasqueue,
          ¬ s.getchunks.Wants hash

/- What `refresh_chunk_download` is for. -/
structure WorkConserving
    (s s' : PeerServer) : Prop
    extends Assigns s s' where
  saturated : Saturated 0 s'.peerlist.count s'

end BtPeer

------------------------------------------------------------
-- One Peer
------------------------------------------------------------

namespace BtPeer

open PeerServer

/- A download that was running has not begun in between. -/
theorem not_newlyStarted
    {s s' : PeerServer}
    {p : Nat}
    (hSame : s'.peer p = s.peer p) :
    ¬ NewlyStarted s s' p := by
  intro hStarted
  have hAfter := hStarted.after
  rw [hSame, hStarted.before] at hAfter
  cases hAfter

theorem Assigns.refl
    (s : PeerServer) :
    Assigns s s where
  given := fun _ hStarted =>
    absurd hStarted (not_newlyStarted rfl)
  distinct := fun _ _ hStarted =>
    absurd hStarted (not_newlyStarted rfl)
  peers := fun _ _ => rfl
  chunks := fun _ _ => rfl
  peerCount := rfl
  listCount := rfl
  maxConn := rfl

/- The step that gives chunk `i` to peer `p`. -/
structure Gives
    (p i : Nat)
    (s s₁ : PeerServer) : Prop where
  queue :
    ∃ before hash after,
      (s.peer p).hasqueue = before ++ hash :: after ∧
        s.getchunks.Names hash i ∧
        (s₁.peer p).hasqueue = before ++ after
  index : (s₁.peer p).dl.getIndex = i
  begun : (s₁.peer p).isDownloading = true
  others : ∀ q, q ≠ p → s₁.peer q = s.peer q
  list : s₁.getchunks = s.getchunks.setState i .fetching
  peerCount : s₁.peerlist.count = s.peerlist.count
  maxConn : s₁.maxConn = s.maxConn

/- `try_send_get` gives a chunk if the peer has any. -/
theorem trySendGet_gives
    (env : Env)
    (s : PeerServer)
    (p : Nat) :
    (trySendGet env s p = s ∧
        ∀ hash ∈ (s.peer p).hasqueue,
          ¬ s.getchunks.Wants hash) ∨
      ∃ i, Gives p i s (trySendGet env s p) := by
  unfold trySendGet findUnfetchedChunk
  cases hSearch :
      searchQueue s.getchunks (s.peer p).hasqueue with
  | none => exact .inl ⟨rfl, searchQueue_none hSearch⟩
  | some found =>
      rcases found with ⟨i, dq⟩
      rcases searchQueue_some hSearch with
        ⟨before, hash, after, hQueue, rfl, _, hNames⟩
      right
      refine ⟨i, ⟨before, hash, after, hQueue, hNames, ?_⟩,
        ?_, ?_, ?_, rfl, rfl, rfl⟩
      · simp [startDownload, sendGet, send, setState, peer,
          setPeer]
      · simp [startDownload, sendGet, send, setState, peer,
          setPeer, dlInit]
      · simp [startDownload, sendGet, send, setState, peer,
          setPeer]
      · intro q hOther
        simp [startDownload, sendGet, send, setState, peer,
          setPeer, hOther]

end BtPeer

------------------------------------------------------------
-- The Loop Over The Peers
------------------------------------------------------------

namespace BtPeer

open PeerServer

variable {s s₁ s' : PeerServer}

/- Chunks only stop being unfetched. -/
theorem Assigns.names
    (hAssigns : Assigns s s')
    {hash : CString}
    {i : Nat}
    (hNames : s'.getchunks.Names hash i) :
    s.getchunks.Names hash i := by
  have hSame :
      s'.getchunks.chunks i = s.getchunks.chunks i := by
    apply hAssigns.chunks
    intro p hStarted hIndex
    rcases hAssigns.given p hStarted with ⟨k, hGiven⟩
    have hState := congrArg ChunkLine.state hGiven.chunk
    rw [← hGiven.index, hIndex, hNames.state] at hState
    cases hState
  have hLt := hNames.lt
  have hState := hNames.state
  have hSha1 := hNames.sha1
  rw [hAssigns.listCount] at hLt
  rw [hSame] at hState hSha1
  exact ⟨hLt, hState, hSha1⟩

/- The chunk that a step gives is being fetched after it. -/
theorem Gives.chunk
    {p i : Nat}
    (hGives : Gives p i s s₁) :
    s₁.getchunks.chunks i =
      { s.getchunks.chunks i with state := .fetching } := by
  rw [hGives.list]
  exact Function.update_self i _ _

theorem Gives.chunk_other
    {p i k : Nat}
    (hGives : Gives p i s s₁)
    (hOther : k ≠ i) :
    s₁.getchunks.chunks k = s.getchunks.chunks k := by
  rw [hGives.list]
  exact Function.update_of_ne hOther _ _

/- A download from another peer begins after that step. -/
theorem Gives.newlyStarted_iff
    {p i q : Nat}
    (hGives : Gives p i s s₁)
    (hOther : q ≠ p) :
    NewlyStarted s₁ s' q ↔ NewlyStarted s s' q := by
  have hSame := hGives.others q hOther
  constructor
  · intro hStarted
    exact ⟨hSame ▸ hStarted.before, hStarted.after⟩
  · intro hStarted
    exact ⟨hSame.symm ▸ hStarted.before, hStarted.after⟩

/- No later download is for the chunk that a step gave. -/
theorem Gives.not_again
    {p i q : Nat}
    (hGives : Gives p i s s₁)
    (hRest : Assigns s₁ s')
    (hStarted : NewlyStarted s₁ s' q) :
    (s'.peer q).dl.getIndex ≠ i := by
  intro hSame
  rcases hRest.given q hStarted with ⟨k, hGiven⟩
  rcases hGiven.queue with ⟨_, _, _, _, hNames, _⟩
  have hState := hNames.state
  rw [← hGiven.index, hSame, hGives.chunk] at hState
  cases hState

/- What a later step gives was there before that step. -/
theorem Gives.givenChunk
    {p i q k : Nat}
    (hGives : Gives p i s s₁)
    (hPeer : q ≠ p)
    (hChunk : k ≠ i)
    (hGiven : GivenChunk s₁ s' q k) :
    GivenChunk s s' q k := by
  have hSame := hGives.others q hPeer
  rcases hGiven with ⟨hLt, hUp, hAt, hQueue, hFetching⟩
  rcases hQueue with
    ⟨before, hash, after, hBefore, hNames, hAfter⟩
  rw [hGives.list] at hNames
  rw [hSame] at hUp hBefore
  rw [hGives.peerCount] at hLt
  rw [hGives.chunk_other hChunk] at hFetching
  refine ⟨hLt, hUp, hAt, ?_, hFetching⟩
  refine ⟨before, hash, after, hBefore, ?_, hAfter⟩
  exact ((ChunkList.names_setState_iff _
    (by decide) hash i k).mp hNames).2

/-
  A chunk that is given to peer `p` first, and then the
  chunks given to others.
-/
theorem Assigns.cons
    {p i : Nat}
    (hPeer : p < s.peerlist.count)
    (hAlive : (s.peer p).isAlive = true)
    (hFree : (s.peer p).isDownloading = false)
    (hGives : Gives p i s s₁)
    (hRest : Assigns s₁ s')
    (hKept : s'.peer p = s₁.peer p) :
    Assigns s s' := by
  have hStartedFirst : NewlyStarted s s' p := by
    refine ⟨hFree, ?_⟩
    rw [hKept]
    exact hGives.begun
  have hIndex : (s'.peer p).dl.getIndex = i := by
    rw [hKept]
    exact hGives.index
  refine
    { given := ?_
      distinct := ?_
      peers := ?_
      chunks := ?_
      peerCount := hRest.peerCount.trans hGives.peerCount
      listCount := ?_
      maxConn := hRest.maxConn.trans hGives.maxConn }
  · intro q hStarted
    by_cases hSame : q = p
    · rw [hSame]
      refine ⟨i, hPeer, hAlive, hIndex, ?_, ?_⟩
      · rw [hKept]
        exact hGives.queue
      · rw [hRest.chunks i
          (fun _ hLater => hGives.not_again hRest hLater)]
        exact hGives.chunk
    · have hLater := (hGives.newlyStarted_iff hSame).mpr hStarted
      rcases hRest.given q hLater with ⟨k, hGiven⟩
      have hOther : k ≠ i := by
        rw [← hGiven.index]
        exact hGives.not_again hRest hLater
      exact ⟨k, hGives.givenChunk hSame hOther hGiven⟩
  · intro q r hFirst hSecond hEqual
    by_cases hQ : q = p
    · by_cases hR : r = p
      · exact hQ.trans hR.symm
      · rw [hQ, hIndex] at hEqual
        exact absurd hEqual.symm
          (hGives.not_again hRest
            ((hGives.newlyStarted_iff hR).mpr hSecond))
    · have hFirst' := (hGives.newlyStarted_iff hQ).mpr hFirst
      by_cases hR : r = p
      · rw [hR, hIndex] at hEqual
        exact absurd hEqual (hGives.not_again hRest hFirst')
      · exact hRest.distinct q r hFirst'
          ((hGives.newlyStarted_iff hR).mpr hSecond) hEqual
  · intro q hNot
    have hOther : q ≠ p := by
      rintro rfl
      exact hNot hStartedFirst
    rw [← hGives.others q hOther]
    apply hRest.peers
    intro hStarted
    exact hNot ((hGives.newlyStarted_iff hOther).mp hStarted)
  · intro k hNone
    have hOther : k ≠ i := by
      rintro rfl
      exact hNone p hStartedFirst hIndex
    rw [← hGives.chunk_other hOther]
    apply hRest.chunks
    intro q hStarted
    have hQ : q ≠ p := by
      rintro rfl
      exact not_newlyStarted hKept hStarted
    exact hNone q ((hGives.newlyStarted_iff hQ).mp hStarted)
  · rw [hRest.listCount, hGives.list,
      ChunkList.setState_count]

/- The loop assigns, and keeps the peers behind it as is. -/
theorem refreshLoop_assigns
    (env : Env)
    (k i : Nat)
    (s : PeerServer)
    (hCount : i + k ≤ s.peerlist.count) :
    Assigns s (refreshLoop env k i s) ∧
      ∀ p, p < i →
        (refreshLoop env k i s).peer p = s.peer p := by
  induction k generalizing i s with
  | zero => exact ⟨.refl s, fun _ _ => rfl⟩
  | succ k ih =>
      simp only [refreshLoop]
      split
      · exact ⟨.refl s, fun _ _ => rfl⟩
      · split
        · rcases ih (i + 1) s (by omega) with
            ⟨hAssigns, hBehind⟩
          exact ⟨hAssigns, fun p hp => hBehind p (by omega)⟩
        · rename_i hGood
          simp only [notGoodForDownload, Bool.or_eq_true,
            Bool.not_eq_true', not_or, Bool.not_eq_false,
            Bool.not_eq_true] at hGood
          rcases trySendGet_gives env s i with
            ⟨hSame, _⟩ | ⟨j, hGives⟩
          · rw [hSame]
            rcases ih (i + 1) s (by omega) with
              ⟨hAssigns, hBehind⟩
            exact ⟨hAssigns, fun p hp => hBehind p (by omega)⟩
          · rcases ih (i + 1) (trySendGet env s i) (by
                rw [hGives.peerCount]
                omega) with ⟨hAssigns, hBehind⟩
            refine ⟨?_, ?_⟩
            · exact .cons (by omega) hGood.1 hGood.2 hGives
                hAssigns (hBehind i (by omega))
            · intro p hp
              rw [hBehind p (by omega)]
              exact hGives.others p (by omega)

end BtPeer

------------------------------------------------------------
-- What Is Left Undone
------------------------------------------------------------

namespace BtPeer

open PeerServer

/- Behind the loop no free peer has a wanted chunk. -/
theorem refreshLoop_saturates
    (env : Env)
    (k i : Nat)
    (s : PeerServer)
    (hCount : i + k ≤ s.peerlist.count) :
    Saturated i (i + k) (refreshLoop env k i s) := by
  induction k generalizing i s with
  | zero =>
      right
      intro p hLow hHigh
      omega
  | succ k ih =>
      simp only [refreshLoop]
      split
      · rename_i hFull
        exact .inl hFull
      · split
        · rename_i hBad
          rcases refreshLoop_assigns env k (i + 1) s
            (by omega) with ⟨_, hBehind⟩
          rcases ih (i + 1) s (by omega) with hFull | hRest
          · exact .inl hFull
          · right
            intro p hLow hHigh hAlive hFree
            by_cases hSame : p = i
            · rw [hSame, hBehind i (by omega)] at hAlive hFree
              simp [notGoodForDownload, hAlive,
                hFree] at hBad
            · exact hRest p (by omega) (by omega) hAlive hFree
        · have hGiven := trySendGet_gives env s i
          have hCount' :
              i + 1 + k ≤
                (trySendGet env s i).peerlist.count := by
            rw [trySendGet_count]
            omega
          rcases refreshLoop_assigns env k (i + 1)
              (trySendGet env s i) hCount' with
            ⟨hAssigns, hBehind⟩
          rcases ih (i + 1) (trySendGet env s i) hCount' with
            hFull | hRest
          · exact .inl hFull
          · right
            intro p hLow hHigh hAlive hFree hash hMem
            by_cases hSame : p = i
            · rw [hSame, hBehind i (by omega)] at hFree hMem
              rcases hGiven with ⟨hNone, hUnwanted⟩ |
                ⟨j, hGives⟩
              · -- what is wanted at the end was wanted here
                rw [hNone] at hMem hAssigns
                rintro ⟨n, hNames⟩
                rw [hNone] at hNames
                exact hUnwanted hash hMem
                  ⟨n, hAssigns.names hNames⟩
              · rw [hGives.begun] at hFree
                cases hFree
            · exact hRest p (by omega) (by omega) hAlive hFree
                hash hMem

/- The search for new sources leaves all of it as it is. -/
theorem WorkConserving.askAgain
    {s s' : PeerServer}
    (hConserving : WorkConserving s s')
    (env : Env) :
    WorkConserving s (BtPeer.askAgain env s') := by
  have hStarted :
      ∀ p,
        NewlyStarted s (BtPeer.askAgain env s') p →
          NewlyStarted s s' p := by
    intro p hNew
    refine ⟨hNew.before, ?_⟩
    have hAfter := hNew.after
    unfold BtPeer.askAgain at hAfter
    split at hAfter <;> exact hAfter
  unfold BtPeer.askAgain at hStarted ⊢
  split
  · rename_i hAsks
    rw [if_pos hAsks] at hStarted
    exact
      { given := fun p hNew => by
          rcases hConserving.given p (hStarted p hNew) with
            ⟨i, hLt, hAlive, hIndex, hQueue, hChunk⟩
          exact ⟨i, hLt, hAlive, hIndex, hQueue, hChunk⟩
        distinct := fun p q hP hQ =>
          hConserving.distinct p q (hStarted p hP)
            (hStarted q hQ)
        peers := fun p hNot =>
          hConserving.peers p
            (fun hNew => hNot ⟨hNew.before, hNew.after⟩)
        chunks := fun i hNone =>
          hConserving.chunks i
            (fun p hNew => hNone p ⟨hNew.before, hNew.after⟩)
        peerCount := hConserving.peerCount
        listCount := hConserving.listCount
        maxConn := hConserving.maxConn
        saturated := hConserving.saturated }
  · exact hConserving

/-
  `refresh_chunk_download` stops only when the connections
  are taken or nothing is left to ask a free peer for, and
  gives each new download its own unfetched chunk.
-/
theorem refreshChunkDownload_conserves
    (env : Env)
    (s : PeerServer) :
    WorkConserving s (refreshChunkDownload env s) := by
  have hCount : 0 + s.peerlist.count ≤ s.peerlist.count := by
    rw [Nat.zero_add]
  rcases refreshLoop_assigns env s.peerlist.count 0 s hCount
    with ⟨hAssigns, _⟩
  have hSaturated :
      Saturated 0
        (refreshLoop env s.peerlist.count 0 s).peerlist.count
        (refreshLoop env s.peerlist.count 0 s) := by
    have hLoop :=
      refreshLoop_saturates env s.peerlist.count 0 s hCount
    rw [hAssigns.peerCount]
    rwa [Nat.zero_add] at hLoop
  exact WorkConserving.askAgain ⟨hAssigns, hSaturated⟩ env

end BtPeer
