import BtPeer.Server.Completion
import BtPeer.Server.MakeChunks
import BtPeer.Server.Peer

/-
  A GET command from its beginning to its end: a file is
  listed by make-chunks, the list is read by the server, and
  the chunks are fetched from any peers, honest or not.

  Key definitions include:
    * `Books.SameCommand`
    * `ServerEvent.Seeks`
    * `Books.Session`

  Key theorems include:
    * `step_sameCommand`
    * `step_session`
    * `fetch_session`
-/

------------------------------------------------------------
-- What A GET Command Sets
------------------------------------------------------------

namespace BtPeer

namespace Books

/- The list, its files and the peers are the same. -/
structure SameCommand (b b' : Books) : Prop where
  count : b'.count = b.count
  lines : SameLines b b'
  dlFilename : b'.dlFilename = b.dlFilename
  getchunkFile : b'.getchunkFile = b.getchunkFile

namespace SameCommand

variable {b b' b'' : Books}

theorem refl
    (b : Books) :
    SameCommand b b :=
  ⟨rfl, sameLines_refl b, rfl, rfl⟩

theorem trans
    (h : SameCommand b b')
    (h' : SameCommand b' b'') :
    SameCommand b b'' where
  count := h'.count.trans h.count
  lines := h.lines.trans h'.lines
  dlFilename := h'.dlFilename.trans h.dlFilename
  getchunkFile := h'.getchunkFile.trans h.getchunkFile

theorem of_sameDownloads
    (hSame : SameDownloads b b') :
    SameCommand b b' where
  count := hSame.count
  lines :=
    ⟨by rw [hSame.getchunks], fun _ => by rw [hSame.getchunks],
      fun _ => by rw [hSame.getchunks]⟩
  dlFilename := hSame.dlFilename
  getchunkFile := hSame.getchunkFile

theorem finishDownload
    (b : Books)
    (p : Nat)
    (w : Option Write) :
    SameCommand b (b.finishDownload p w) where
  count := (finishDownload_connections b p w).count
  lines := finishDownload_sameLines b p w
  dlFilename := finishDownload_dlFilename b p w
  getchunkFile := by
    have hSave :
        ((b.endDownload p).save p w).getchunkFile =
          b.getchunkFile := by
      cases w with
      | none => rfl
      | some w =>
          simp only [save]
          split <;> rfl
    unfold Books.finishDownload release
    split <;> exact hSave

theorem killDownload
    (b : Books)
    (p : Nat) :
    SameCommand b (b.killDownload p) := by
  unfold Books.killDownload
  split
  · have hLines :=
      sameLines_setState b (b.slot p).getIndex .unfetched
    exact ⟨rfl, ⟨hLines.count, hLines.id, hLines.sha1⟩,
      rfl, rfl⟩
  · exact refl b

theorem drop
    (b : Books)
    (p : Nat) :
    SameCommand b (b.drop p) := by
  have hKill := killDownload b p
  exact ⟨hKill.count,
    ⟨hKill.lines.count, hKill.lines.id, hKill.lines.sha1⟩,
    hKill.dlFilename, hKill.getchunkFile⟩

theorem beginDownload
    (b : Books)
    (p i : Nat) :
    SameCommand b (b.beginDownload p i) := by
  have hLines := sameLines_setState b i .fetching
  exact ⟨rfl, ⟨hLines.count, hLines.id, hLines.sha1⟩, rfl,
    rfl⟩

theorem keeps
    (start : Books) :
    Books.Keeps (SameCommand start) where
  raise := fun b p hSame =>
    hSame.trans (of_sameDownloads (raise_sameDownloads b p))
  beginDownload := fun b p i _ hSame =>
    hSame.trans (beginDownload b p i)
  unload := fun b p _ _ hSame =>
    hSame.trans (of_sameDownloads (unload_sameDownloads b p))

end SameCommand

end Books

/- Packets and timeout checks leave the GET command alone. -/
theorem step_sameCommand
    (sha1 : List Byte → Nat → Byte)
    {start : Books}
    {s : PeerServer}
    {e : ServerEvent}
    (hSame : start.SameCommand s.books)
    (hEvent : e.IsNotCommand) :
    start.SameCommand (s.step sha1 e).books := by
  have hKeeps := Books.SameCommand.keeps start
  cases e with
  | packet env pkt sender =>
      apply packet_keeps hKeeps sha1 env _ _ hSame
      · intro p _
        exact hSame.trans
          (Books.SameCommand.finishDownload s.books p _)
      · intro p hasIndex _
        exact hSame.trans
          (Books.SameCommand.of_sameDownloads
            (Books.load_sameDownloads s.books p _ _))
  | timeout env =>
      apply timeout_keeps hKeeps sha1 env _ hSame
      intro b p _ _ _ _ hB
      exact hB.trans (Books.SameCommand.drop b p)
  | command env chunkfile outputfile text =>
      exact hEvent.elim

end BtPeer

------------------------------------------------------------
-- A Session
------------------------------------------------------------

namespace BtPeer

/-
  A packet or a timeout check; when the packet completes a
  download, the seek in the output file does not fail.
-/
def ServerEvent.Seeks : ServerEvent → Prop
| .packet env _ _ => env.lseekOk = true
| .timeout _ => True
| .command _ _ _ _ => False

theorem ServerEvent.Seeks.isNotCommand
    {e : ServerEvent}
    (hEvent : e.Seeks) :
    e.IsNotCommand := by
  cases e with
  | command env chunkfile outputfile text =>
      exact hEvent.elim
  | _ => trivial

namespace Books

/-
  A list was read while nothing was downloading. Its ids are
  different, and their places can be reached with an `int`.
-/
structure Fresh (start : Books) : Prop where
  idle :
    ∀ p, p < start.count → (start.slot p).downloading = false
  ids : start.getchunks.DistinctIds
  small :
    ∀ i, i < start.getchunks.count →
      (start.getchunks.chunks i).id < 4096
  unfetched :
    ∀ i, i < start.getchunks.count →
      start.state i = .unfetched
  dlRemain : start.dlRemain = start.getchunks.count

/- What holds while the list of `start` is being fetched. -/
structure Session
    (sha1 : List Byte → Nat → Byte)
    (start b : Books) : Prop where
  owned : b.Owned (fun _ => False)
  counted : b.Counted
  intact : b.Intact sha1
  command : start.SameCommand b
  current : LaterFile start.dlFilename start b
  told :
    b.got =
      start.got ++
        if 0 < b.getchunks.count ∧ b.dlRemain = 0 then
          [start.getchunkFile]
        else []

variable {sha1 : List Byte → Nat → Byte}
variable {start b : Books}

theorem Fresh.session
    (hFresh : start.Fresh) :
    Session sha1 start start where
  owned := by
    apply Owned.of_idle hFresh.idle
    intro i hi hFetching
    rw [hFresh.unfetched i hi] at hFetching
    cases hFetching
  counted := by
    have hAll : start.remaining = start.getchunks.count := by
      apply Nat.count_iff_forall.mpr
      intro i hi hFetched
      rw [hFresh.unfetched i hi] at hFetched
      cases hFetched
    rw [Counted, hAll, hFresh.dlRemain]
  intact := by
    refine ⟨hFresh.ids, ?_⟩
    intro i hi hFetched
    rw [hFresh.unfetched i hi] at hFetched
    cases hFetched
  command := SameCommand.refl start
  current := LaterFile.refl start
  told := by
    rw [if_neg, List.append_nil]
    rintro ⟨hSome, hZero⟩
    rw [hFresh.dlRemain] at hZero
    omega

/- The running downloads write to the output file. -/
theorem Session.filename
    (hFresh : start.Fresh)
    (hInv : Session sha1 start b)
    {p : Nat}
    (hPeer : p < b.count)
    (hDownloading : (b.slot p).downloading = true) :
    (b.slot p).filename = b.dlFilename := by
  rw [hInv.command.dlFilename]
  rcases hInv.current.running p hDownloading with
    hCurrent | ⟨hEarlier, _⟩
  · exact hCurrent
  · rw [hFresh.idle p (hInv.command.count ▸ hPeer)] at hEarlier
    cases hEarlier

end Books

/- What is saved in a session is saved in place. -/
theorem Books.Session.keepsFiles
    {sha1 : List Byte → Nat → Byte}
    {start : Books}
    (hFresh : start.Fresh)
    {s : PeerServer}
    (hInv : Session sha1 start s.books)
    {e : ServerEvent}
    (hEvent : e.Seeks) :
    ListsDistinct s e ∧ KeepsFiles sha1 s e := by
  cases e with
  | packet env pkt sender =>
      refine ⟨trivial, ?_⟩
      intro p hDone _
      have hPeer := addr2Index_lt hDone.sender
      rcases hInv.owned.index p _
          ⟨hPeer, hDone.downloading, rfl⟩ with
        ⟨hIndex, hFetching⟩
      left
      refine ⟨hIndex,
        hInv.filename hFresh hPeer hDone.downloading,
        Or.inr ⟨hEvent, ?_⟩, Or.inr ?_⟩
      · have hSmall :=
          hFresh.small _ (hInv.command.lines.count ▸ hIndex)
        rw [← hInv.command.lines.id] at hSmall
        exact hSmall
      · intro hFetched
        exact absurd (hFetching.symm.trans hFetched)
          (by decide)
  | timeout env => exact ⟨trivial, trivial⟩
  | command env chunkfile outputfile text =>
      exact hEvent.elim

/- A list that is complete stays complete. -/
theorem step_complete
    (sha1 : List Byte → Nat → Byte)
    {s : PeerServer}
    {e : ServerEvent}
    (hOwned : s.books.Owned (fun _ => False))
    (hCounted : s.books.Counted)
    (hEvent : e.IsNotCommand)
    (hDone : s.dlRemain = 0) :
    (s.step sha1 e).dlRemain = 0 := by
  have hFetched :
      s.books.Owned (fun i => s.books.state i = .fetched) :=
    ⟨hOwned.index, hOwned.owner, hOwned.unique,
      fun _ hState => hState⟩
  have hKept := step_owned sha1 _ s e hFetched hEvent
  have hNext : (s.step sha1 e).books.Counted :=
    step_counted sha1 s e hCounted
      (hOwned.keepsCount sha1 e)
  have hSame :
      (s.step sha1 e).books.getchunks.count =
        s.books.getchunks.count :=
    (step_sameCommand sha1
      (Books.SameCommand.refl s.books) hEvent).lines.count
  apply hNext.zero_iff.mpr
  intro i hi
  rw [hSame] at hi
  exact hKept.kept i (hCounted.zero_iff.mp hDone i hi)

/- The GOT line is printed when the list is complete. -/
theorem step_told
    (sha1 : List Byte → Nat → Byte)
    {start : Books}
    {s : PeerServer}
    {e : ServerEvent}
    (hInv : start.Session sha1 s.books)
    (hEvent : e.IsNotCommand) :
    (s.step sha1 e).got =
      start.got ++
        if 0 < (s.step sha1 e).getchunks.count ∧
            (s.step sha1 e).dlRemain = 0 then
          [start.getchunkFile]
        else [] := by
  have hTells :=
    step_got sha1 hInv.counted
      (hInv.owned.keepsCount sha1 e) hEvent
  have hCount :
      (s.step sha1 e).getchunks.count = s.getchunks.count :=
    (step_sameCommand sha1
      (Books.SameCommand.refl s.books) hEvent).lines.count
  have hFile : s.getchunkFile = start.getchunkFile :=
    hInv.command.getchunkFile
  have hTold :
      s.got =
        start.got ++
          if 0 < s.getchunks.count ∧ s.dlRemain = 0 then
            [start.getchunkFile]
          else [] := hInv.told
  rw [TellsAtZero, hFile] at hTells
  rw [hTells, hCount, hTold]
  by_cases hMore : 0 < s.dlRemain
  · have hSome : 0 < s.getchunks.count := by
      rcases hInv.counted.pos_iff.mp hMore with ⟨i, hi, _⟩
      exact Nat.zero_lt_of_lt hi
    have hOpen : s.dlRemain ≠ 0 := by omega
    simp only [hMore, hSome, true_and, if_neg hOpen,
      List.append_nil]
    split
    · rfl
    · exact (List.append_nil _).symm
  · have hDone : s.dlRemain = 0 := by
      have hNatural : s.dlRemain = s.books.remaining :=
        hInv.counted
      omega
    have hStays :=
      step_complete sha1 hInv.owned hInv.counted hEvent hDone
    simp only [hDone, hStays, lt_irrefl, false_and, if_false]

/- Every event of a session keeps it. -/
theorem step_session
    (sha1 : List Byte → Nat → Byte)
    {start : Books}
    (hFresh : start.Fresh)
    (s : PeerServer)
    (e : ServerEvent)
    (hInv : start.Session sha1 s.books)
    (hEvent : e.Seeks) :
    start.Session sha1 (s.step sha1 e).books := by
  have hOrdinary := hEvent.isNotCommand
  constructor
  case owned =>
    exact step_owned sha1 _ s e hInv.owned hOrdinary
  case counted =>
    exact step_counted sha1 s e hInv.counted
      (hInv.owned.keepsCount sha1 e)
  case intact =>
    exact step_intact sha1 s e hInv.intact
      (hInv.keepsFiles hFresh hEvent)
  case command =>
    exact step_sameCommand sha1 hInv.command hOrdinary
  case current =>
    exact step_laterFile sha1 s e hInv.current hOrdinary
  case told => exact step_told sha1 hInv hOrdinary

end BtPeer

------------------------------------------------------------
-- From The File To Its Copy
------------------------------------------------------------

namespace BtPeer

/- A spelled digest determines the digest. -/
theorem digest_eq_of_hexDigest
    {bytes bytes' : List Byte}
    (hSame : hexDigest bytes = hexDigest bytes') :
    SecureHash.digest bytes = SecureHash.digest bytes' := by
  have hLength := SecureHash.digest_length bytes
  have hLength' := SecureHash.digest_length bytes'
  apply List.ext_getElem (hLength.trans hLength'.symm)
  intro i hi hi'
  rw [hLength] at hi
  have hSpelled (bytes : List Byte) :
      hex2binary (hexDigest bytes) i =
        (SecureHash.digest bytes).getD i 0 :=
    hex2binary_binary2hex _ hi
  have hByte :=
    congrArg (fun hash => hex2binary hash i) hSame
  simp only [hSpelled] at hByte
  rwa [List.getD_eq_getElem, List.getD_eq_getElem] at hByte

section

variable {file : List Byte}
variable {cl : ChunkList}

theorem ListsFile.id_eq
    (hLists : ListsFile file cl)
    {i : Nat}
    (hi : i < cl.count) :
    (cl.chunks i).id = i := by
  rw [hLists.entry i hi]

theorem ListsFile.distinctIds
    (hLists : ListsFile file cl) :
    cl.DistinctIds where
  nonneg := by
    intro i hi
    rw [hLists.id_eq hi]
    exact Int.natCast_nonneg i
  distinct := by
    intro i j hi hj hSame
    rw [hLists.id_eq hi, hLists.id_eq hj] at hSame
    exact Int.ofNat.inj hSame

/- The array is no longer than an `int` can reach. -/
theorem ListsFile.small
    (hLists : ListsFile file cl)
    (i : Nat)
    (hi : i < cl.count) :
    (cl.chunks i).id < 4096 := by
  have hRoom := cl.count_le
  rw [maxChunkNum_eq] at hRoom
  rw [hLists.id_eq hi]
  omega

end

/-
  The server reads the list that make-chunks printed, while
  nothing is downloading.
-/
theorem fresh_of_printed
    (buffer : Nat → Byte)
    {mallocOk : Nat → Bool}
    {file : List Byte}
    {text : List Char}
    (hPrinted :
      makeChunksMain (shahashOf buffer) mallocOk (some file) =
        some text)
    {s : PeerServer}
    (hIdle :
      ∀ p, p < s.peerlist.count →
        (s.peer p).isDownloading = false)
    (env : Env)
    {chunkfile outputfile : CString}
    (hNamed : Named chunkfile outputfile) :
    let start :=
      s.step (shahashOf buffer)
        (.command env chunkfile outputfile (some text))
    start.books.Fresh ∧ ListsFile file start.getchunks ∧
      start.dlFilename = outputfile ∧
      start.getchunkFile = chunkfile ∧ start.got = s.got := by
  intro start
  rcases parseChunk_opened s.getchunks text with
    ⟨getchunks, hParse⟩
  have hLists := listsFile_of_parsed hPrinted hParse
  have hBooks :
      start.books =
        (s.books.rename outputfile chunkfile).accept
          getchunks := by
    rw [command_books _ env s _ hNamed, hParse]
  have hFresh :
      ((s.books.rename outputfile chunkfile).accept
        getchunks).Fresh := by
    constructor
    case idle => exact hIdle
    case ids => exact hLists.distinctIds
    case small => exact hLists.small
    case unfetched =>
      intro i hi
      exact parseChunk_unfetched hParse hi
    case dlRemain => rfl
  rw [hBooks]
  refine ⟨hFresh, ?_, congrArg Books.dlFilename hBooks,
    congrArg Books.getchunkFile hBooks,
    congrArg Books.got hBooks⟩
  rw [show start.getchunks = getchunks from
    congrArg Books.getchunks hBooks]
  exact hLists

/-
  A GET command for the list of a file, given while nothing is
  downloading. Whatever the peers send and whoever falls
  silent: a chunk that is marked as fetched is in the output
  file, at its place, with the digest that this chunk has in
  the original file; nothing remains exactly when all chunks
  are fetched; and the GOT line is printed once, then.
-/
theorem fetch_session
    (buffer : Nat → Byte)
    (mallocOk : Nat → Bool)
    (file : List Byte)
    (text : List Char)
    (s : PeerServer)
    (env : Env)
    (chunkfile outputfile : CString)
    (es : List ServerEvent)
    (hPrinted :
      makeChunksMain (shahashOf buffer) mallocOk (some file) =
        some text)
    (hIdle :
      ∀ p, p < s.peerlist.count →
        (s.peer p).isDownloading = false)
    (hNamed : Named chunkfile outputfile)
    (hEvents : ∀ e ∈ es, e.Seeks) :
    let start :=
      s.step (shahashOf buffer)
        (.command env chunkfile outputfile (some text))
    let s' :=
      EventMachine.run (PeerServer.step (shahashOf buffer))
        start es
    s'.getchunks.count =
        min (getNumchunks file) maxChunkNum ∧
      (∀ i, i < s'.getchunks.count →
        (s'.getchunks.chunks i).state = .fetched →
        ∃ data,
          ByteMemory.Stores (s'.files outputfile)
              (i * btChunkSize) data btChunkSize ∧
            SecureHash.digest
                (ByteMemory.block data 0 btChunkSize) =
              SecureHash.digest
                ((file.drop (i * btChunkSize)).take
                  btChunkSize)) ∧
      (s'.dlRemain = 0 ↔
        ∀ i, i < s'.getchunks.count →
          (s'.getchunks.chunks i).state = .fetched) ∧
      s'.got =
        s.got ++
          if 0 < s'.getchunks.count ∧ s'.dlRemain = 0 then
            [chunkfile]
          else [] := by
  intro start s'
  rcases fresh_of_printed buffer hPrinted hIdle env hNamed with
    ⟨hFresh, hLists, hOutput, hChunkfile, hGot⟩
  have hInv :
      start.books.Session (shahashOf buffer) s'.books :=
    EventMachine.run_invariant_along
      (fun s => start.books.Session (shahashOf buffer) s.books)
      (step_session (shahashOf buffer) hFresh) hFresh.session
      (EventMachine.along_of_forall start hEvents)
  have hCount :
      s'.getchunks.count = start.getchunks.count :=
    hInv.command.lines.count
  have hTold := hInv.told
  rw [show start.books.got = s.got from hGot,
    show start.books.getchunkFile = chunkfile from hChunkfile]
    at hTold
  refine ⟨hCount.trans hLists.count, ?_,
    hInv.counted.zero_iff, hTold⟩
  intro i hi hFetched
  rcases hInv.intact.stored i hi hFetched with
    ⟨data, hStored, hHash⟩
  have hId : (s'.getchunks.chunks i).id = i := by
    refine (hInv.command.lines.id i).trans ?_
    exact hLists.id_eq (hCount ▸ hi)
  have hSha1 :
      (s'.getchunks.chunks i).sha1 =
        hexDigest
          ((file.drop (i * btChunkSize)).take
            btChunkSize) := by
    refine (hInv.command.lines.sha1 i).trans ?_
    exact congrArg ChunkLine.sha1
      (hLists.entry i (hCount ▸ hi))
  have hShort :
      (ByteMemory.block data 0 btChunkSize).length <
        2 ^ 32 := by
    rw [ByteMemory.block_length, btChunkSize_eq]
    omega
  refine ⟨data, ?_, digest_eq_of_hexDigest ?_⟩
  · have hFile : s'.dlFilename = outputfile :=
      hInv.command.dlFilename.trans hOutput
    have hPlace :
        s'.books.getchunks.place i = i * btChunkSize := by
      unfold ChunkList.place
      rw [show (s'.books.getchunks.chunks i).id = i from hId,
        Int.toNat_natCast]
    rw [hPlace] at hStored
    rw [← hFile]
    exact hStored
  · rw [← binary2hex_shahashOf buffer hShort, ← hexDigest_take,
      ← hSha1]
    exact hHash

/- A file of one byte is listed, and its chunk is offered. -/
theorem fetch_session_offered :
    let s' :=
      EventMachine.run
        (PeerServer.step (shahashOf (fun _ => 0)))
        (sampleServer.step (shahashOf (fun _ => 0))
          (.command sampleEnv ['c'] ['o']
            (some
              (printHashes 0
                (makeChunks (shahashOf (fun _ => 0))
                  [7])))))
        [.packet sampleEnv (samplePacket .ihave)
            sampleAddress,
          .timeout sampleEnv]
    (s'.dlRemain = 0 ↔
        ∀ i, i < s'.getchunks.count →
          (s'.getchunks.chunks i).state = .fetched) ∧
      s'.got =
        sampleServer.got ++
          if 0 < s'.getchunks.count ∧ s'.dlRemain = 0 then
            [['c']]
          else [] :=
  (fetch_session (fun _ => 0) (fun _ => true) [7] _
    sampleServer sampleEnv ['c'] ['o'] _ rfl (fun _ _ => rfl)
    (by decide) (by simp [ServerEvent.Seeks, sampleEnv])).2.2

end BtPeer
