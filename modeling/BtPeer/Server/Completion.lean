import BtPeer.Server.Delivery
import BtPeer.Server.Ownership

/-
  When the server is done: `dl_remain` against the states of
  the list, and the GOT lines.

  Key definitions include:
    * `Books.remaining`
    * `Books.SameProgress`
    * `KeepsCount`

  Key theorems include:
    * `packet_progress`
    * `completion_counting`
    * `keepsCount_of_patient`
-/

------------------------------------------------------------
-- Progress
------------------------------------------------------------

namespace BtPeer

namespace Books

/- The number of chunks of the list that are not fetched. -/
def remaining (b : Books) : Nat :=
  Nat.count (fun i => b.state i ≠ .fetched) b.getchunks.count

/- The same chunks of the same list are fetched. -/
structure SameProgress (b b' : Books) : Prop where
  count : b'.getchunks.count = b.getchunks.count
  dlRemain : b'.dlRemain = b.dlRemain
  got : b'.got = b.got
  fetched :
    ∀ k, k < b.getchunks.count →
      (b'.state k = .fetched ↔ b.state k = .fetched)

namespace SameProgress

variable {b b' b'' : Books}

theorem refl
    (b : Books) :
    SameProgress b b where
  count := rfl
  dlRemain := rfl
  got := rfl
  fetched := fun _ _ => Iff.rfl

theorem trans
    (h : SameProgress b b')
    (h' : SameProgress b' b'') :
    SameProgress b b'' where
  count := h'.count.trans h.count
  dlRemain := h'.dlRemain.trans h.dlRemain
  got := h'.got.trans h.got
  fetched := by
    intro k hk
    have hk' : k < b'.getchunks.count := by
      rw [h.count]
      exact hk
    exact (h'.fetched k hk').trans (h.fetched k hk)

theorem of_sameDownloads
    (hSame : SameDownloads b b') :
    SameProgress b b' where
  count := by rw [hSame.getchunks]
  dlRemain := hSame.dlRemain
  got := hSame.got
  fetched := by
    intro k _
    rw [hSame.state]

theorem remaining
    (h : SameProgress b b') :
    b'.remaining = b.remaining := by
  unfold Books.remaining
  rw [h.count]
  apply Nat.count_eq_of_agree
  intro k hk
  exact not_congr (h.fetched k hk)

theorem beginDownload
    {p i : Nat}
    (hBegin : b.CanBegin p i) :
    SameProgress b (b.beginDownload p i) where
  count := rfl
  dlRemain := rfl
  got := rfl
  fetched := by
    intro k _
    have hUnfetched : b.state i = .unfetched :=
      hBegin.unfetched
    rw [beginDownload_state]
    split
    · rename_i hEq
      rw [hEq, hUnfetched]
      decide
    · exact Iff.rfl

theorem keeps
    (b₀ : Books) :
    Books.Keeps (SameProgress b₀) where
  raise := fun b p h =>
    h.trans (of_sameDownloads (raise_sameDownloads b p))
  beginDownload := fun _ _ _ hBegin h =>
    h.trans (beginDownload hBegin)
  unload := fun b p _ _ h =>
    h.trans (of_sameDownloads (unload_sameDownloads b p))

end SameProgress

/- A completion that saves nothing makes no progress. -/
theorem finishDownload_sameProgress
    {b : Books}
    {p : Nat}
    {w : Option Write}
    (hNone : ¬ fullWrite w = true) :
    SameProgress b (b.finishDownload p w) where
  count := finishDownload_getchunks_count b p w
  dlRemain := by
    rw [finishDownload_dlRemain, if_neg hNone]
  got := by
    rw [finishDownload_got,
      if_neg (fun hBoth => hNone hBoth.1)]
  fetched := by
    intro k _
    by_cases hEq : k = (b.slot p).getIndex
    · rw [hEq, finishDownload_state_self]
      by_cases hOld :
          b.state (b.slot p).getIndex = .fetched
      · rw [if_pos (Or.inr hOld)]
        exact iff_of_true rfl hOld
      · rw [if_neg (fun h => h.elim hNone hOld)]
        exact iff_of_false (by decide) hOld
    · rw [finishDownload_state_of_ne w hEq]

/-
  Giving up a peer reverts no progress, unless the peer still
  names a fetched chunk of the list.
-/
theorem drop_sameProgress
    {b : Books}
    {p : Nat}
    (hMissing :
      (b.slot p).downloading = true →
      (b.slot p).getIndex < b.getchunks.count →
      b.state (b.slot p).getIndex ≠ .fetched) :
    SameProgress b (b.drop p) where
  count := drop_getchunks_count b p
  dlRemain := by
    change (b.killDownload p).dlRemain = _
    unfold killDownload
    split <;> rfl
  got := by
    change (b.killDownload p).got = _
    unfold killDownload
    split <;> rfl
  fetched := by
    intro k hk
    rw [drop_state]
    split
    · rename_i hBoth
      rw [hBoth.2] at hk ⊢
      exact iff_of_false (by decide)
        (hMissing hBoth.1 hk)
    · exact Iff.rfl

/- A completion that saves a missing chunk of the list. -/
theorem finishDownload_remaining
    {b : Books}
    {p : Nat}
    {w : Option Write}
    (hFull : fullWrite w = true)
    (hIndex : (b.slot p).getIndex < b.getchunks.count)
    (hMissing : b.state (b.slot p).getIndex ≠ .fetched) :
    (b.finishDownload p w).remaining + 1 = b.remaining := by
  have hNew :
      (b.finishDownload p w).state (b.slot p).getIndex =
        .fetched := by
    rw [finishDownload_state_self, if_pos (Or.inl hFull)]
  have hChange :=
    @Nat.count_change
      (fun i => b.state i ≠ .fetched)
      (fun i => (b.finishDownload p w).state i ≠ .fetched)
      _ _ b.getchunks.count (b.slot p).getIndex hIndex
      (by
        intro k hk
        rw [finishDownload_state_of_ne w hk])
  rw [if_pos hMissing, if_neg (not_not.mpr hNew)] at hChange
  unfold remaining
  rw [finishDownload_getchunks_count]
  exact hChange

/-
  A completion that saves a chunk from behind the end of the
  list is counted, though nothing of the list is fetched.
-/
theorem finishDownload_outside
    {b : Books}
    {p : Nat}
    {w : Option Write}
    (hFull : fullWrite w = true)
    (hOutside : b.getchunks.count ≤ (b.slot p).getIndex) :
    (b.finishDownload p w).dlRemain = b.dlRemain - 1 ∧
      (b.finishDownload p w).remaining = b.remaining := by
  constructor
  · rw [finishDownload_dlRemain, if_pos hFull]
  · unfold remaining
    rw [finishDownload_getchunks_count]
    apply Nat.count_eq_of_agree
    intro k hk
    rw [finishDownload_state_of_ne w (by omega)]

end Books

end BtPeer

------------------------------------------------------------
-- Events
------------------------------------------------------------

namespace BtPeer

/- The download that the packet completes is saved. -/
structure Saves
    (sha1 : List Byte → Nat → Byte)
    (env : Env)
    (s : PeerServer)
    (pkt : Packet)
    (sender : Address)
    (p : Nat) : Prop where
  completes : Completes env s pkt sender p
  full : fullWrite (lastWrite sha1 env s pkt p) = true

/-
  A packet makes no progress, or it completes a download that
  is saved, and makes the progress of that alone.
-/
theorem packet_progress
    (sha1 : List Byte → Nat → Byte)
    (env : Env)
    (s : PeerServer)
    (pkt : Packet)
    (sender : Address) :
    ∃ b,
      (b = s.books ∨
        ∃ p, Saves sha1 env s pkt sender p ∧
          b =
            s.books.finishDownload p
              (lastWrite sha1 env s pkt p)) ∧
      b.SameProgress
        (s.step sha1 (.packet env pkt sender)).books := by
  apply packet_keeps
    (Books.Keeps.exists Books.SameProgress.keeps) sha1 env
  · intro p hDone
    by_cases hFull :
        fullWrite (lastWrite sha1 env s pkt p) = true
    · exact ⟨_, Or.inr ⟨p, ⟨hDone, hFull⟩, rfl⟩,
        Books.SameProgress.refl _⟩
    · exact ⟨_, Or.inl rfl,
        Books.finishDownload_sameProgress hFull⟩
  · intro p hasIndex _
    exact ⟨_, Or.inl rfl,
      Books.SameProgress.of_sameDownloads
        (Books.load_sameDownloads s.books p _ _)⟩
  · exact ⟨_, Or.inl rfl, Books.SameProgress.refl _⟩

/-
  The event leaves the count right: a saved download is that
  of a missing chunk of the list, and a peer that is given up
  is not on a fetched one.
-/
def KeepsCount
    (sha1 : List Byte → Nat → Byte)
    (s : PeerServer) : ServerEvent → Prop
| .packet env pkt sender =>
    ∀ p, Saves sha1 env s pkt sender p →
      (s.peer p).dl.getIndex < s.getchunks.count ∧
        (s.getchunks.chunks (s.peer p).dl.getIndex).state ≠
          .fetched
| .timeout env =>
    ∀ p, p < s.peerlist.count → TimedOut env s p →
      (s.peer p).isDownloading = true →
      (s.peer p).dl.getIndex < s.getchunks.count →
      (s.getchunks.chunks (s.peer p).dl.getIndex).state ≠
        .fetched
| .command _ _ _ _ => True

/- A timeout check makes no progress. -/
theorem timeout_progress
    (sha1 : List Byte → Nat → Byte)
    {env : Env}
    {s : PeerServer}
    (hKeeps : KeepsCount sha1 s (.timeout env)) :
    s.books.SameProgress
      (s.step sha1 (.timeout env)).books := by
  apply timeout_keeps (Books.SameProgress.keeps s.books) sha1
    env
  · intro b p hCount hPeer hSlot hLate hProgress
    rw [hCount] at hPeer
    apply hProgress.trans
    apply Books.drop_sameProgress
    rw [hSlot]
    intro hDownloading hIndex hFetched
    rw [hProgress.count] at hIndex
    exact hKeeps p hPeer hLate hDownloading hIndex
      ((hProgress.fetched _ hIndex).mp hFetched)
  · exact Books.SameProgress.refl s.books

end BtPeer

------------------------------------------------------------
-- Counting
------------------------------------------------------------

namespace BtPeer

namespace Books

/- `dl_remain` counts the chunks that are not fetched. -/
def Counted (b : Books) : Prop :=
  b.dlRemain = b.remaining

theorem SameProgress.counted
    {b b' : Books}
    (hProgress : SameProgress b b')
    (hInv : b.Counted) :
    b'.Counted := by
  unfold Counted
  rw [hProgress.dlRemain, hProgress.remaining]
  exact hInv

theorem counted_finishDownload
    {b : Books}
    (hInv : b.Counted)
    {p : Nat}
    {w : Option Write}
    (hFull : fullWrite w = true)
    (hIndex : (b.slot p).getIndex < b.getchunks.count)
    (hMissing : b.state (b.slot p).getIndex ≠ .fetched) :
    (b.finishDownload p w).Counted := by
  have hOne :=
    finishDownload_remaining hFull hIndex hMissing
  unfold Counted at hInv ⊢
  rw [finishDownload_dlRemain, if_pos hFull, hInv, ← hOne]
  omega

theorem Counted.pos_iff
    {b : Books}
    (hInv : b.Counted) :
    0 < b.dlRemain ↔
      ∃ i, i < b.getchunks.count ∧ b.state i ≠ .fetched := by
  rw [hInv, Int.natCast_pos, Nat.pos_iff_ne_zero]
  exact Nat.count_ne_iff_exists

theorem Counted.zero_iff
    {b : Books}
    (hInv : b.Counted) :
    b.dlRemain = 0 ↔
      ∀ i, i < b.getchunks.count → b.state i = .fetched := by
  rw [hInv, Int.natCast_eq_zero, remaining,
    Nat.count_iff_forall_not]
  simp only [not_not]

/- Nothing of a list that was just read is fetched. -/
theorem counted_accept
    {cl getchunks : ChunkList}
    {text : Option (List Char)}
    (hParse : parseChunk cl text = some getchunks)
    (b : Books) :
    (b.accept getchunks).Counted := by
  have hAll : (b.accept getchunks).remaining =
      getchunks.count := by
    apply Nat.count_iff_forall.mpr
    intro i hi hFetched
    have hUnfetched := parseChunk_unfetched hParse hi
    have hState : (getchunks.chunks i).state = .fetched :=
      hFetched
    rw [hUnfetched] at hState
    exact absurd hState (by decide)
  unfold Counted
  rw [hAll]
  rfl

end Books

/- An event that keeps the count keeps it right. -/
theorem step_counted
    (sha1 : List Byte → Nat → Byte)
    (s : PeerServer)
    (e : ServerEvent)
    (hInv : s.books.Counted)
    (hKeeps : KeepsCount sha1 s e) :
    (s.step sha1 e).books.Counted := by
  cases e with
  | packet env pkt sender =>
      rcases packet_progress sha1 env s pkt sender with
        ⟨b, hBase, hProgress⟩
      apply hProgress.counted
      rcases hBase with hSame | ⟨p, hSaves, hDone⟩
      · rw [hSame]
        exact hInv
      · rcases hKeeps p hSaves with ⟨hIndex, hMissing⟩
        rw [hDone]
        exact Books.counted_finishDownload hInv hSaves.full
          hIndex hMissing
  | timeout env =>
      exact (timeout_progress sha1 hKeeps).counted hInv
  | command env chunkfile outputfile text =>
      apply command_keeps sha1 env _ _ hInv
      · intro _ _
        exact hInv
      · intro _ getchunks hParse
        exact Books.counted_accept hParse _

end BtPeer

------------------------------------------------------------
-- GOT Lines
------------------------------------------------------------

namespace BtPeer

/- A GOT line is printed when the count comes down to 0. -/
def TellsAtZero (s s' : PeerServer) : Prop :=
  s'.got =
    if 0 < s.dlRemain ∧ s'.dlRemain = 0 then
      s.got ++ [s.getchunkFile]
    else s.got

theorem tellsAtZero_of_same
    {s s' : PeerServer}
    (hProgress : s.books.SameProgress s'.books) :
    TellsAtZero s s' := by
  have hRemain : s'.dlRemain = s.dlRemain :=
    hProgress.dlRemain
  unfold TellsAtZero
  rw [if_neg (by omega)]
  exact hProgress.got

theorem packet_got
    (sha1 : List Byte → Nat → Byte)
    {env : Env}
    {s : PeerServer}
    {pkt : Packet}
    {sender : Address}
    (hInv : s.books.Counted)
    (hKeeps : KeepsCount sha1 s (.packet env pkt sender)) :
    TellsAtZero s
      (s.step sha1 (.packet env pkt sender)) := by
  rcases packet_progress sha1 env s pkt sender with
    ⟨b, hSame | ⟨p, hSaves, hDone⟩, hProgress⟩
  · rw [hSame] at hProgress
    exact tellsAtZero_of_same hProgress
  · have hMissing := hKeeps p hSaves
    have hPos : 0 < s.dlRemain :=
      hInv.pos_iff.mpr ⟨_, hMissing⟩
    have hRemain :
        (s.step sha1 (.packet env pkt sender)).dlRemain =
          s.dlRemain - 1 := by
      refine hProgress.dlRemain.trans ?_
      rw [hDone, Books.finishDownload_dlRemain,
        if_pos hSaves.full]
      rfl
    have hGot := hProgress.got
    rw [hDone, Books.finishDownload_got] at hGot
    simp only [hSaves.full, true_and] at hGot
    unfold TellsAtZero
    simp only [hPos, hRemain, true_and]
    exact hGot

/-
  Outside of GET commands, a GOT line is printed by the
  events that complete the list, and by no others.
-/
theorem step_got
    (sha1 : List Byte → Nat → Byte)
    {s : PeerServer}
    {e : ServerEvent}
    (hInv : s.books.Counted)
    (hKeeps : KeepsCount sha1 s e)
    (hEvent : e.IsNotCommand) :
    TellsAtZero s (s.step sha1 e) := by
  cases e with
  | packet env pkt sender =>
      exact packet_got sha1 hInv hKeeps
  | timeout env =>
      exact tellsAtZero_of_same (timeout_progress sha1 hKeeps)
  | command env chunkfile outputfile text =>
      exact hEvent.elim

/- A GET command prints no GOT line. -/
theorem command_got
    (sha1 : List Byte → Nat → Byte)
    (s : PeerServer)
    {e : ServerEvent}
    (hEvent : ¬ e.IsNotCommand) :
    (s.step sha1 e).got = s.got := by
  cases e with
  | packet env pkt sender => exact absurd trivial hEvent
  | timeout env => exact absurd trivial hEvent
  | command env chunkfile outputfile text =>
      exact
        @command_keeps (fun b => b.got = s.got) sha1 env s
          chunkfile outputfile text (fun _ _ => rfl)
          (fun _ _ _ => rfl) rfl

/-
  In every run whose events keep the count, `dl_remain` is
  the number of chunks of the list that are not fetched, so
  that the server goes on asking while there are any, and the
  next event prints a GOT line when it completes the list,
  and only then.
-/
theorem completion_counting
    (sha1 : List Byte → Nat → Byte)
    (addrs : List Address)
    (masterChunk : Nat → Byte)
    (haschunks : ChunkList)
    (maxConn : Int)
    (files : CString → ByteMemory.SparseFile Byte)
    {es : List ServerEvent}
    (hKeeps :
      EventMachine.Along (PeerServer.step sha1)
        (KeepsCount sha1)
        (peerInit addrs masterChunk haschunks maxConn files)
        es) :
    let s :=
      EventMachine.run (PeerServer.step sha1)
        (peerInit addrs masterChunk haschunks maxConn files)
        es
    s.dlRemain =
        Nat.count
          (fun i => (s.getchunks.chunks i).state ≠ .fetched)
          s.getchunks.count ∧
      (0 < s.dlRemain ↔
        ∃ i, i < s.getchunks.count ∧
          (s.getchunks.chunks i).state ≠ .fetched) ∧
      ∀ e, KeepsCount sha1 s e →
        let s' := s.step sha1 e
        (s'.got = s.got ∨
          s'.got = s.got ++ [s.getchunkFile]) ∧
        (s'.got ≠ s.got ↔
          e.IsNotCommand ∧
            (∃ i, i < s.getchunks.count ∧
              (s.getchunks.chunks i).state ≠ .fetched) ∧
            ∀ i, i < s'.getchunks.count →
              (s'.getchunks.chunks i).state = .fetched) := by
  intro s
  have hInit :
      (peerInit addrs masterChunk haschunks maxConn
        files).books.Counted := rfl
  have hInv : s.books.Counted :=
    EventMachine.run_invariant_along
      (fun s => s.books.Counted) (step_counted sha1) hInit
      hKeeps
  refine ⟨hInv, hInv.pos_iff, ?_⟩
  intro e hNext s'
  have hInv' : s'.books.Counted :=
    step_counted sha1 s e hInv hNext
  have hBefore :
      0 < s.dlRemain ↔
        ∃ i, i < s.getchunks.count ∧
          (s.getchunks.chunks i).state ≠ .fetched :=
    hInv.pos_iff
  have hAfter :
      s'.dlRemain = 0 ↔
        ∀ i, i < s'.getchunks.count →
          (s'.getchunks.chunks i).state = .fetched :=
    hInv'.zero_iff
  rw [← hBefore, ← hAfter]
  by_cases hEvent : e.IsNotCommand
  · have hTells := step_got sha1 hInv hNext hEvent
    unfold TellsAtZero at hTells
    split at hTells
    · rename_i hDone
      have hNew : s'.got ≠ s.got := by
        rw [hTells]
        simp
      exact ⟨Or.inr hTells,
        iff_of_true hNew ⟨hEvent, hDone⟩⟩
    · rename_i hNot
      exact ⟨Or.inl hTells,
        iff_of_false (not_not.mpr hTells)
          (fun hAll => hNot hAll.2)⟩
  · have hSame := command_got sha1 s hEvent
    exact ⟨Or.inl hSame,
      iff_of_false (not_not.mpr hSame)
        (fun hAll => hEvent hAll.1)⟩

/- A list is read, and the only peer offers its chunk. -/
theorem completion_counting_one_list :
    let s :=
      EventMachine.run (PeerServer.step (fun _ _ => 0))
        sampleServer
        [.command sampleEnv ['a'] ['o']
            (some ('0' :: ' ' :: zeroHash)),
          .packet sampleEnv (samplePacket .ihave)
            sampleAddress]
    s.dlRemain =
        Nat.count
          (fun i => (s.getchunks.chunks i).state ≠ .fetched)
          s.getchunks.count ∧
      (0 < s.dlRemain ↔
        ∃ i, i < s.getchunks.count ∧
          (s.getchunks.chunks i).state ≠ .fetched) ∧
      ∀ e, KeepsCount (fun _ _ => 0) s e →
        let s' := s.step (fun _ _ => 0) e
        (s'.got = s.got ∨
          s'.got = s.got ++ [s.getchunkFile]) ∧
        (s'.got ≠ s.got ↔
          e.IsNotCommand ∧
            (∃ i, i < s.getchunks.count ∧
              (s.getchunks.chunks i).state ≠ .fetched) ∧
            ∀ i, i < s'.getchunks.count →
              (s'.getchunks.chunks i).state = .fetched) := by
  apply completion_counting
  refine ⟨trivial, ?_, trivial⟩
  intro p hSaves
  exact absurd hSaves.completes.type (by decide)

/- A list with two chunks, the second with the zero hash. -/
def twoChunkText : List Char :=
  ['0', ' ', 'x', ' ', '1', ' '] ++ zeroHash

/-
  The second chunk of a list is being fetched when a list with
  one chunk is read.
-/
def rereadEvents : List ServerEvent :=
  [.command sampleEnv ['a'] ['o'] (some twoChunkText),
    .packet sampleEnv (samplePacket .ihave) sampleAddress,
    .command sampleEnv ['b'] ['o'] (some ['0', ' ', 'x'])]

theorem rereadEvents_delivered :
    Delivered 0 sampleAddress 0
      (EventMachine.run (PeerServer.step (fun _ _ => 0))
        sampleServer rereadEvents) where
  sender := by decide +kernel
  alive := by decide +kernel
  downloading := by decide +kernel
  inOrder := dlInit_inOrder 1 0 1 ['o']

theorem rereadEvents_books :
    let s :=
      EventMachine.run (PeerServer.step (fun _ _ => 0))
        sampleServer rereadEvents
    s.dlRemain = 1 ∧
      s.got ++ [s.getchunkFile] = [['b']] ∧
      s.getchunks.count ≤ (s.peer 0).dl.getIndex ∧
      Nat.count
        (fun i => (s.getchunks.chunks i).state ≠ .fetched)
        s.getchunks.count = 1 := by
  decide +kernel

/- A list is told done by a chunk from behind its end. -/
theorem outside_told
    {s s' : PeerServer}
    {p : Nat}
    {w : Option Write}
    (hBooks : s'.books = s.books.finishDownload p w)
    (hFull : fullWrite w = true)
    (hRemain : s.dlRemain = 1)
    (hOutside :
      s.getchunks.count ≤ (s.peer p).dl.getIndex) :
    s'.dlRemain = 0 ∧
      s'.got = s.got ++ [s.getchunkFile] ∧
      Nat.count
          (fun i => (s'.getchunks.chunks i).state ≠ .fetched)
          s'.getchunks.count =
        Nat.count
          (fun i => (s.getchunks.chunks i).state ≠ .fetched)
          s.getchunks.count := by
  have hZero : s.books.dlRemain - 1 = 0 :=
    congrArg (· - 1) hRemain
  have hTold := Books.finishDownload_got s.books p w
  rw [if_pos ⟨hFull, hZero⟩, ← hBooks] at hTold
  have hIndex :
      s.books.getchunks.count ≤
        (s.books.slot p).getIndex := hOutside
  rcases Books.finishDownload_outside hFull hIndex with
    ⟨hNone, hSame⟩
  rw [← hBooks] at hNone hSame
  exact ⟨hNone.trans hZero, hTold, hSame⟩

/-
  The download of the old list ends: a GOT line is printed
  for the new list, of which nothing is fetched.
-/
theorem completion_counting_reread :
    let s :=
      EventMachine.run (PeerServer.step (fun _ _ => 0))
        sampleServer
        (rereadEvents ++
          deliver sampleEnv sampleSegment sampleAddress
            lastSeq)
    s.dlRemain = 0 ∧ s.got = [['b']] ∧
      Nat.count
          (fun i => (s.getchunks.chunks i).state ≠ .fetched)
          s.getchunks.count = 1 := by
  rcases rereadEvents_books with
    ⟨hRemain, hGot, hOutside, hLeft⟩
  rcases
      @deliver_saves (fun _ _ => 0) sampleEnv 0 sampleAddress
        _ rereadEvents_delivered sampleSegment
        (fun _ hk => sampleSegment_isSegment hk)
        (fun _ => by decide +kernel) rfl
        (Nat.le_refl btChunkSize) hRemain.le with
    ⟨buffer, hBooks⟩
  rw [EventMachine.run_append]
  rcases
      outside_told hBooks (fullWrite_chunk _ buffer) hRemain
        hOutside with
    ⟨hNone, hTold, hSame⟩
  exact ⟨hNone, hTold.trans hGot, hSame.trans hLeft⟩

end BtPeer

------------------------------------------------------------
-- Patient Users
------------------------------------------------------------

namespace BtPeer

/- A GET command is given only while nothing is downloading. -/
def Patient
    (s : PeerServer) : ServerEvent → Prop
| .command _ _ _ _ =>
    ∀ p, p < s.peerlist.count →
      (s.peer p).isDownloading = false
| _ => True

theorem step_owned_of_patient
    (sha1 : List Byte → Nat → Byte)
    (s : PeerServer)
    (e : ServerEvent)
    (hInv : s.books.Owned (fun _ => False))
    (hPatient : Patient s e) :
    (s.step sha1 e).books.Owned (fun _ => False) := by
  cases e with
  | packet env pkt sender =>
      exact step_owned sha1 _ s _ hInv trivial
  | timeout env =>
      exact step_owned sha1 _ s _ hInv trivial
  | command env chunkfile outputfile text =>
      by_cases hNamed : Named chunkfile outputfile
      · cases hParse : parseChunk s.getchunks text with
        | none =>
            rw [command_books sha1 env s text hNamed, hParse]
            exact hInv.rename outputfile chunkfile
        | some getchunks =>
            exact command_owned sha1 hPatient env hNamed
              hParse
      · rw [command_unnamed sha1 env s text hNamed]
        exact hInv

/- Downloads that are owned keep the count. -/
theorem Books.Owned.keepsCount
    {kept : Nat → Prop}
    {s : PeerServer}
    (hInv : s.books.Owned kept)
    (sha1 : List Byte → Nat → Byte)
    (e : ServerEvent) :
    KeepsCount sha1 s e := by
  have hMissing {p : Nat}
      (hPeer : p < s.peerlist.count)
      (hDownloading : (s.peer p).isDownloading = true) :
      (s.peer p).dl.getIndex < s.getchunks.count ∧
        (s.getchunks.chunks (s.peer p).dl.getIndex).state ≠
          .fetched := by
    rcases hInv.index p _ ⟨hPeer, hDownloading, rfl⟩ with
      ⟨hIndex, hState⟩
    refine ⟨hIndex, ?_⟩
    intro hFetched
    exact absurd (hState.symm.trans hFetched) (by decide)
  cases e with
  | packet env pkt sender =>
      intro p hSaves
      exact hMissing (addr2Index_lt hSaves.completes.sender)
        hSaves.completes.downloading
  | timeout env =>
      intro p hPeer _ hDownloading _
      exact (hMissing hPeer hDownloading).2
  | command env chunkfile outputfile text => trivial

/- A patient user meets the condition of the count. -/
theorem keepsCount_of_patient
    (sha1 : List Byte → Nat → Byte)
    (addrs : List Address)
    (masterChunk : Nat → Byte)
    (haschunks : ChunkList)
    (maxConn : Int)
    (files : CString → ByteMemory.SparseFile Byte)
    {es : List ServerEvent}
    (hPatient :
      EventMachine.Along (PeerServer.step sha1) Patient
        (peerInit addrs masterChunk haschunks maxConn files)
        es) :
    EventMachine.Along (PeerServer.step sha1)
      (KeepsCount sha1)
      (peerInit addrs masterChunk haschunks maxConn files)
      es := by
  refine
    EventMachine.Along.of_invariant
      (fun s => s.books.Owned (fun _ => False))
      (step_owned_of_patient sha1)
      (fun s e hInv _ => hInv.keepsCount sha1 e) ?_ hPatient
  apply Books.Owned.of_idle
  · intro p _
    rfl
  · intro i hi
    exact absurd hi (Nat.not_lt_zero i)

end BtPeer
