import BtPeer.Server.Events

/-
  Who fetches what: between two GET commands, the chunks that
  are being fetched and the peers that are downloading are
  paired off.

  Key definitions include:
    * `Books.Owned`

  Key theorems include:
    * `step_owned`
    * `chunk_ownership`
-/

------------------------------------------------------------
-- Owners
------------------------------------------------------------

namespace BtPeer

namespace Books

/- Peer `p` is downloading chunk `i`. -/
structure Owns
    (b : Books)
    (p i : Nat) : Prop where
  peer : p < b.count
  downloading : (b.slot p).downloading = true
  getIndex : (b.slot p).getIndex = i

/-
  A peer downloads a chunk of the list that is marked so, a
  marked chunk has an owner, and no two peers download the
  same chunk. The chunks of `kept` are fetched.
-/
structure Owned
    (kept : Nat → Prop)
    (b : Books) : Prop where
  index :
    ∀ p i, b.Owns p i →
      i < b.getchunks.count ∧ b.state i = .fetching
  owner :
    ∀ i, i < b.getchunks.count → b.state i = .fetching →
      ∃ p, b.Owns p i
  unique :
    ∀ p q i, b.Owns p i → b.Owns q i → p = q
  kept : ∀ i, kept i → b.state i = .fetched

theorem SameDownloads.owns
    {b b' : Books}
    (hSame : SameDownloads b b')
    (p i : Nat) :
    b'.Owns p i ↔ b.Owns p i := by
  constructor
  · rintro ⟨hPeer, hDownloading, hIndex⟩
    rw [hSame.count] at hPeer
    rw [hSame.downloading] at hDownloading
    rw [hSame.getIndex] at hIndex
    exact ⟨hPeer, hDownloading, hIndex⟩
  · rintro ⟨hPeer, hDownloading, hIndex⟩
    rw [← hSame.count] at hPeer
    rw [← hSame.downloading] at hDownloading
    rw [← hSame.getIndex] at hIndex
    exact ⟨hPeer, hDownloading, hIndex⟩

theorem beginDownload_owns
    {b : Books}
    {p i q j : Nat}
    (hPeer : p < b.count) :
    (b.beginDownload p i).Owns q j ↔
      q = p ∧ j = i ∨ q ≠ p ∧ b.Owns q j := by
  have hSlot :
      (b.beginDownload p i).slot q =
        if q = p then
          { b.slot p with
            downloading := true
            getIndex := i
            filename := b.dlFilename }
        else b.slot q :=
    setSlot_slot b p q _
  by_cases hEq : q = p
  · rw [if_pos hEq] at hSlot
    constructor
    · rintro ⟨_, _, hIndex⟩
      rw [hSlot] at hIndex
      exact Or.inl ⟨hEq, hIndex.symm⟩
    · rintro (⟨_, hj⟩ | ⟨hNe, _⟩)
      · refine ⟨hEq ▸ hPeer, ?_, ?_⟩
        · rw [hSlot]
        · rw [hSlot, hj]
      · exact absurd hEq hNe
  · rw [if_neg hEq] at hSlot
    constructor
    · rintro ⟨hCount, hDownloading, hIndex⟩
      rw [hSlot] at hDownloading hIndex
      exact Or.inr ⟨hEq, hCount, hDownloading, hIndex⟩
    · rintro (⟨hSame, _⟩ | ⟨_, hOld⟩)
      · exact absurd hSame hEq
      · refine ⟨hOld.peer, ?_, ?_⟩
        · rw [hSlot]
          exact hOld.downloading
        · rw [hSlot]
          exact hOld.getIndex

/- A peer that stops downloading owns nothing. -/
theorem owns_of_stopped
    {b b' : Books}
    {p : Nat}
    (hCount : b'.count = b.count)
    (hStopped : (b'.slot p).downloading = false)
    (hRest : ∀ q, q ≠ p → b'.slot q = b.slot q)
    (q j : Nat) :
    b'.Owns q j ↔ q ≠ p ∧ b.Owns q j := by
  by_cases hEq : q = p
  · constructor
    · intro hOwns
      have hDownloading := hOwns.downloading
      rw [hEq, hStopped] at hDownloading
      exact absurd hDownloading Bool.false_ne_true
    · rintro ⟨hNe, _⟩
      exact absurd hEq hNe
  · have hSlot := hRest q hEq
    constructor
    · rintro ⟨hPeer, hDownloading, hIndex⟩
      rw [hCount] at hPeer
      rw [hSlot] at hDownloading hIndex
      exact ⟨hEq, hPeer, hDownloading, hIndex⟩
    · rintro ⟨_, hPeer, hDownloading, hIndex⟩
      rw [← hCount] at hPeer
      rw [← hSlot] at hDownloading hIndex
      exact ⟨hPeer, hDownloading, hIndex⟩

namespace Owned

variable {kept : Nat → Prop}
variable {b : Books}

theorem of_sameDownloads
    {b' : Books}
    (hInv : b.Owned kept)
    (hSame : SameDownloads b b') :
    b'.Owned kept where
  index := by
    intro p i hOwns
    rw [hSame.owns] at hOwns
    rw [hSame.getchunks, hSame.state]
    exact hInv.index p i hOwns
  owner := by
    intro i hi hState
    rw [hSame.getchunks] at hi
    rw [hSame.state] at hState
    rcases hInv.owner i hi hState with ⟨p, hOwns⟩
    exact ⟨p, (hSame.owns p i).mpr hOwns⟩
  unique := by
    intro p q i hp hq
    rw [hSame.owns] at hp hq
    exact hInv.unique p q i hp hq
  kept := by
    intro i hi
    rw [hSame.state]
    exact hInv.kept i hi

/- An unfetched chunk is not the one a peer downloads. -/
theorem ne_of_unfetched
    (hInv : b.Owned kept)
    {q i j : Nat}
    (hUnfetched : b.state i = .unfetched)
    (hOwns : b.Owns q j) :
    j ≠ i := by
  intro hEq
  have hFetching := (hInv.index q j hOwns).2
  rw [hEq, hUnfetched] at hFetching
  exact absurd hFetching (by decide)

/-
  Peer `p` takes chunk `i`, which nobody has, and everything
  else stays as it is.
-/
theorem beginDownload
    (hInv : b.Owned kept)
    {p i : Nat}
    (hBegin : b.CanBegin p i) :
    (b.beginDownload p i).Owned kept where
  index := by
    intro q j hq
    rw [beginDownload_state]
    rcases (beginDownload_owns hBegin.peer).mp hq with
      ⟨_, hj⟩ | ⟨_, hOld⟩
    · rw [if_pos hj, hj]
      exact ⟨hBegin.index, rfl⟩
    · rw [if_neg (hInv.ne_of_unfetched hBegin.unfetched hOld)]
      exact hInv.index q j hOld
  owner := by
    intro j hj hFetching
    by_cases hEq : j = i
    · exact ⟨p,
        (beginDownload_owns hBegin.peer).mpr
          (Or.inl ⟨rfl, hEq⟩)⟩
    · rw [beginDownload_state, if_neg hEq] at hFetching
      rcases hInv.owner j hj hFetching with ⟨q, hq⟩
      refine ⟨q, (beginDownload_owns hBegin.peer).mpr
        (Or.inr ⟨?_, hq⟩)⟩
      intro hSame
      have hFree := hBegin.free
      rw [← hSame, hq.downloading] at hFree
      exact absurd hFree (by decide)
  unique := by
    intro q r j hq hr
    rcases (beginDownload_owns hBegin.peer).mp hq with
      ⟨hqp, hqj⟩ | ⟨_, hqOld⟩
    · rcases (beginDownload_owns hBegin.peer).mp hr with
        ⟨hrp, _⟩ | ⟨_, hrOld⟩
      · exact hqp.trans hrp.symm
      · exact absurd hqj
          (hInv.ne_of_unfetched hBegin.unfetched hrOld)
    · rcases (beginDownload_owns hBegin.peer).mp hr with
        ⟨_, hrj⟩ | ⟨_, hrOld⟩
      · exact absurd hrj
          (hInv.ne_of_unfetched hBegin.unfetched hqOld)
      · exact hInv.unique q r j hqOld hrOld
  kept := by
    intro j hj
    have hDiffer : j ≠ i := by
      intro hEq
      have hUnfetched : b.state i = .unfetched :=
        hBegin.unfetched
      rw [← hEq, hInv.kept j hj] at hUnfetched
      exact absurd hUnfetched (by decide)
    rw [beginDownload_state, if_neg hDiffer]
    exact hInv.kept j hj

/-
  Peer `p` gives its chunk away, which is not being fetched
  any more, and everything else stays as it is.
-/
theorem release
    (hInv : b.Owned kept)
    {b' : Books}
    {p i : Nat}
    (hOwns : b.Owns p i)
    (hOwners :
      ∀ q j, b'.Owns q j ↔ q ≠ p ∧ b.Owns q j)
    (hCount : b'.getchunks.count = b.getchunks.count)
    (hState : ∀ k, k ≠ i → b'.state k = b.state k)
    (hFree : b'.state i ≠ .fetching) :
    b'.Owned kept where
  index := by
    intro q j hq
    rcases (hOwners q j).mp hq with ⟨hNe, hOld⟩
    have hDiffer : j ≠ i := by
      intro hEq
      rw [hEq] at hOld
      exact hNe (hInv.unique q p i hOld hOwns)
    rw [hCount, hState j hDiffer]
    exact hInv.index q j hOld
  owner := by
    intro j hj hFetching
    have hDiffer : j ≠ i := by
      intro hEq
      rw [hEq] at hFetching
      exact hFree hFetching
    rw [hCount] at hj
    rw [hState j hDiffer] at hFetching
    rcases hInv.owner j hj hFetching with ⟨q, hq⟩
    refine ⟨q, (hOwners q j).mpr ⟨?_, hq⟩⟩
    intro hEq
    rw [hEq] at hq
    exact hDiffer (hq.getIndex.symm.trans hOwns.getIndex)
  unique := by
    intro q r j hq hr
    exact hInv.unique q r j ((hOwners q j).mp hq).2
      ((hOwners r j).mp hr).2
  kept := by
    intro j hj
    have hDiffer : j ≠ i := by
      intro hEq
      have hFetching := (hInv.index p i hOwns).2
      rw [← hEq, hInv.kept j hj] at hFetching
      exact absurd hFetching (by decide)
    rw [hState j hDiffer]
    exact hInv.kept j hj

theorem finishDownload
    (hInv : b.Owned kept)
    {p : Nat}
    (hPeer : p < b.count)
    (hDownloading : (b.slot p).downloading = true)
    (w : Option Write) :
    (b.finishDownload p w).Owned kept := by
  apply hInv.release ⟨hPeer, hDownloading, rfl⟩
  · apply owns_of_stopped
    · exact (finishDownload_connections b p w).count
    · rw [finishDownload_slot, if_pos rfl]
    · intro q hq
      rw [finishDownload_slot, if_neg hq]
  · exact finishDownload_getchunks_count b p w
  · intro k hk
    exact finishDownload_state_of_ne w hk
  · rw [finishDownload_state_self]
    split <;> decide

theorem drop
    (hInv : b.Owned kept)
    {p : Nat}
    (hPeer : p < b.count) :
    (b.drop p).Owned kept := by
  by_cases hDownloading : (b.slot p).downloading = true
  · apply hInv.release ⟨hPeer, hDownloading, rfl⟩
    · apply owns_of_stopped
      · exact drop_count b p
      · rw [drop_slot_self]
      · intro q hq
        exact drop_slot_of_ne b hq
    · exact drop_getchunks_count b p
    · intro k hk
      rw [drop_state, if_neg (fun hBoth => hk hBoth.2)]
    · rw [drop_state, if_pos ⟨hDownloading, rfl⟩]
      decide
  · exact hInv.of_sameDownloads
      (drop_sameDownloads hDownloading)

/- Nobody owns anything, and nothing is being fetched. -/
theorem of_idle
    (hIdle :
      ∀ p, p < b.count → (b.slot p).downloading = false)
    (hNone :
      ∀ i, i < b.getchunks.count → b.state i ≠ .fetching) :
    b.Owned (fun _ => False) := by
  have hNobody (p i : Nat) : ¬ b.Owns p i := by
    intro hOwns
    have hDownloading := hOwns.downloading
    rw [hIdle p hOwns.peer] at hDownloading
    exact Bool.false_ne_true hDownloading
  constructor
  case index =>
    intro p i hOwns
    exact absurd hOwns (hNobody p i)
  case owner =>
    intro i hi hFetching
    exact absurd hFetching (hNone i hi)
  case unique =>
    intro p q i hp _
    exact absurd hp (hNobody p i)
  case kept =>
    intro i hFalse
    exact hFalse.elim

theorem rename
    (hInv : b.Owned kept)
    (outputfile chunkfile : CString) :
    (b.rename outputfile chunkfile).Owned kept := by
  have hOwns (p i : Nat) :
      (b.rename outputfile chunkfile).Owns p i ↔
        b.Owns p i :=
    ⟨fun h => ⟨h.peer, h.downloading, h.getIndex⟩,
      fun h => ⟨h.peer, h.downloading, h.getIndex⟩⟩
  constructor
  case index =>
    intro p i h
    exact hInv.index p i ((hOwns p i).mp h)
  case owner =>
    intro i hi hFetching
    rcases hInv.owner i hi hFetching with ⟨p, h⟩
    exact ⟨p, (hOwns p i).mpr h⟩
  case unique =>
    intro p q i hp hq
    exact hInv.unique p q i ((hOwns p i).mp hp)
      ((hOwns q i).mp hq)
  case kept => exact hInv.kept

theorem keeps :
    Books.Keeps (Books.Owned kept) where
  raise := fun b p hInv =>
    hInv.of_sameDownloads (raise_sameDownloads b p)
  beginDownload := fun _ _ _ hBegin hInv =>
    hInv.beginDownload hBegin
  unload := fun b p _ _ hInv =>
    hInv.of_sameDownloads (unload_sameDownloads b p)

end Owned

end Books

/- A packet or a timeout check, not a GET command. -/
def ServerEvent.IsNotCommand : ServerEvent → Prop
| .command _ _ _ _ => False
| _ => True

/- Packets and timeout checks keep the chunks owned. -/
theorem step_owned
    (sha1 : List Byte → Nat → Byte)
    (kept : Nat → Prop)
    (s : PeerServer)
    (e : ServerEvent)
    (hInv : s.books.Owned kept)
    (hEvent : e.IsNotCommand) :
    (s.step sha1 e).books.Owned kept := by
  have hKeeps := @Books.Owned.keeps kept
  cases e with
  | packet env pkt sender =>
      apply packet_keeps hKeeps sha1 env _ _ hInv
      · intro p hDone
        exact hInv.finishDownload
          (addr2Index_lt hDone.sender) hDone.downloading _
      · intro p hasIndex _
        exact hInv.of_sameDownloads
          (Books.load_sameDownloads _ p _ _)
  | timeout env =>
      apply timeout_keeps hKeeps sha1 env _ hInv
      intro b p _ hPeer _ _ hB
      exact hB.drop hPeer
  | command env chunkfile outputfile text =>
      exact hEvent.elim

end BtPeer

------------------------------------------------------------
-- Runs Behind A GET Command
------------------------------------------------------------

namespace BtPeer

/- Nobody owns a chunk of a list that was just read. -/
theorem command_owned
    (sha1 : List Byte → Nat → Byte)
    {s : PeerServer}
    (hIdle :
      ∀ p, p < s.peerlist.count →
        (s.peer p).isDownloading = false)
    (env : Env)
    {chunkfile outputfile : CString}
    {text : Option (List Char)}
    {getchunks : ChunkList}
    (hNamed : Named chunkfile outputfile)
    (hParse :
      parseChunk s.getchunks text = some getchunks) :
    (s.step sha1
        (.command env chunkfile outputfile text)).books.Owned
      (fun _ => False) := by
  rw [command_books sha1 env s text hNamed, hParse]
  apply Books.Owned.of_idle hIdle
  intro i hi hFetching
  have hUnfetched := parseChunk_unfetched hParse hi
  have hState :
      (getchunks.chunks i).state = .fetching := hFetching
  rw [hUnfetched] at hState
  exact absurd hState (by decide)

/- An invariant state pairs chunks and peers off. -/
theorem Books.Owned.fetching_iff
    {kept : Nat → Prop}
    {b : Books}
    (hInv : b.Owned kept)
    {i : Nat}
    (hi : i < b.getchunks.count) :
    b.state i = .fetching ↔
      ∃! p, p < b.count ∧
        (b.slot p).downloading = true ∧
        (b.slot p).getIndex = i := by
  constructor
  · intro hFetching
    rcases hInv.owner i hi hFetching with ⟨p, hp⟩
    refine ⟨p, ⟨hp.peer, hp.downloading, hp.getIndex⟩, ?_⟩
    rintro q ⟨hPeer, hDownloading, hIndex⟩
    exact hInv.unique q p i ⟨hPeer, hDownloading, hIndex⟩ hp
  · rintro ⟨p, ⟨hPeer, hDownloading, hIndex⟩, _⟩
    exact (hInv.index p i
      ⟨hPeer, hDownloading, hIndex⟩).2

/-
  In every run of packets and timeout checks behind a GET
  command that was taken while nothing was downloading: a
  chunk is marked as being fetched when exactly one peer
  downloads it, no peer downloads anything else, and a chunk
  that is fetched, here after `es`, stays so.
-/
theorem chunk_ownership
    (sha1 : List Byte → Nat → Byte)
    {s : PeerServer}
    (hIdle :
      ∀ p, p < s.peerlist.count →
        (s.peer p).isDownloading = false)
    (env : Env)
    {chunkfile outputfile : CString}
    {text : Option (List Char)}
    {getchunks : ChunkList}
    (hNamed : Named chunkfile outputfile)
    (hParse :
      parseChunk s.getchunks text = some getchunks)
    {es fs : List ServerEvent}
    (hEvents : ∀ e, e ∈ es ++ fs → e.IsNotCommand) :
    let start :=
      s.step sha1 (.command env chunkfile outputfile text)
    let before :=
      EventMachine.run (PeerServer.step sha1) start es
    let after :=
      EventMachine.run (PeerServer.step sha1) start (es ++ fs)
    (∀ i, i < after.getchunks.count →
      ((after.getchunks.chunks i).state = .fetching ↔
        ∃! p, p < after.peerlist.count ∧
          (after.peer p).isDownloading = true ∧
          (after.peer p).dl.getIndex = i)) ∧
      (∀ p, p < after.peerlist.count →
        (after.peer p).isDownloading = true →
        (after.peer p).dl.getIndex < after.getchunks.count ∧
          (after.getchunks.chunks
            (after.peer p).dl.getIndex).state = .fetching) ∧
      ∀ i, i < before.getchunks.count →
        (before.getchunks.chunks i).state = .fetched →
        (after.getchunks.chunks i).state = .fetched := by
  intro start before after
  have hRun (kept : Nat → Prop) (s : PeerServer)
      {es : List ServerEvent}
      (hInv : s.books.Owned kept)
      (hEvents : ∀ e, e ∈ es → e.IsNotCommand) :
      (EventMachine.run (PeerServer.step sha1) s
        es).books.Owned kept :=
    EventMachine.run_invariant_along
      (fun s => s.books.Owned kept)
      (step_owned sha1 kept) hInv
      (EventMachine.along_of_forall s hEvents)
  have hStart := command_owned sha1 hIdle env hNamed hParse
  have hBefore : before.books.Owned (fun _ => False) := by
    apply hRun _ start hStart
    intro e hMem
    exact hEvents e (List.mem_append_left fs hMem)
  have hKept :
      before.books.Owned
        (fun i => before.books.state i = .fetched) :=
    ⟨hBefore.index, hBefore.owner, hBefore.unique,
      fun _ hState => hState⟩
  have hAfter :
      after.books.Owned
        (fun i => before.books.state i = .fetched) := by
    dsimp only [after]
    rw [EventMachine.run_append]
    apply hRun _ before hKept
    intro e hMem
    exact hEvents e (List.mem_append_right es hMem)
  refine ⟨?_, ?_, ?_⟩
  · intro i hi
    exact hAfter.fetching_iff hi
  · intro p hPeer hDownloading
    exact hAfter.index p _ ⟨hPeer, hDownloading, rfl⟩
  · intro i _ hState
    exact hAfter.kept i hState

/-
  A list with one chunk is read, and the only peer has the
  chunk.
-/
theorem chunk_ownership_one_peer :
    let start :=
      sampleServer.step (fun _ _ => 0)
        (.command sampleEnv ['c'] ['o']
          (some ('0' :: ' ' :: zeroHash)))
    let after :=
      EventMachine.run (PeerServer.step (fun _ _ => 0)) start
        [.packet sampleEnv (samplePacket .ihave)
          sampleAddress]
    (∀ i, i < after.getchunks.count →
      ((after.getchunks.chunks i).state = .fetching ↔
        ∃! p, p < after.peerlist.count ∧
          (after.peer p).isDownloading = true ∧
          (after.peer p).dl.getIndex = i)) ∧
      (∀ p, p < after.peerlist.count →
        (after.peer p).isDownloading = true →
        (after.peer p).dl.getIndex < after.getchunks.count ∧
          (after.getchunks.chunks
            (after.peer p).dl.getIndex).state = .fetching) ∧
      ∀ i, i < start.getchunks.count →
        (start.getchunks.chunks i).state = .fetched →
        (after.getchunks.chunks i).state = .fetched :=
  @chunk_ownership (fun _ _ => 0) sampleServer
    (fun _ _ => rfl) sampleEnv ['c'] ['o']
    (some ('0' :: ' ' :: zeroHash)) _ (by decide) rfl []
    [.packet sampleEnv (samplePacket .ihave) sampleAddress]
    (by simp [ServerEvent.IsNotCommand])

example :
    let start :=
      sampleServer.step (fun _ _ => 0)
        (.command sampleEnv ['c'] ['o']
          (some ('0' :: ' ' :: zeroHash)))
    let after :=
      start.step (fun _ _ => 0)
        (.packet sampleEnv (samplePacket .ihave)
          sampleAddress)
    (after.peer 0).isDownloading = true ∧
      (after.getchunks.chunks 0).state = .fetching := by
  decide +kernel

end BtPeer
