import BtPeer.Packet.Wire
import BtPeer.Server.Integrity
import BtPeer.Server.Ownership

/-
  What peer.c does with a datagram and with a line of user
  input, and what a refused GET command leaves behind.

  Key definitions include:
    * `processInboundUdp`
    * `handleUserInput`
    * `RefusedGet`
    * `LeavesNothingBehind`

  Key theorems include:
    * `run_laterFile`
    * `refusedGet_harmless_iff`
-/

------------------------------------------------------------
-- Datagrams And Lines
------------------------------------------------------------

namespace BtPeer

/-
  `process_inbound_udp` on the `ret` bytes of `buf`; `stale`
  is the previous contents of the packet on the stack.
-/
def processInboundUdp
    (sha1 : List Byte → Nat → Byte)
    (env : Env)
    (s : PeerServer)
    (buf stale : Nat → Byte)
    (ret : Nat)
    (sender : Address) : PeerServer :=
  let pkt := decodePkt buf stale ret
  if validPacket pkt then parsePacket sha1 env s pkt sender
  else s

/- It is the packet event of the server. -/
theorem processInboundUdp_eq
    (sha1 : List Byte → Nat → Byte)
    (env : Env)
    (s : PeerServer)
    (buf stale : Nat → Byte)
    (ret : Nat)
    (sender : Address) :
    processInboundUdp sha1 env s buf stale ret sender =
      s.step sha1
        (.packet env (decodePkt buf stale ret) sender) := rfl

/- The longest word that `%120s` takes. -/
def wordLen : Nat := 120

/- One `%120s` of `sscanf`: the word and the rest. -/
def scanWord
    (inp : CString) : CString × CString :=
  let body := inp.dropWhile isSpace
  let word := (body.takeWhile (! isSpace ·)).take wordLen
  (word, body.drop word.length)

/-
  `handle_user_input`: `sscanf(line, "GET %120s %120s")`, and
  a GET when the second word is there. `fopen` gives the
  contents of a chunk file.
-/
def handleUserInput
    (env : Env)
    (fopen : CString → Option (List Char))
    (s : PeerServer) : CString → PeerServer
| 'G' :: 'E' :: 'T' :: rest =>
    let chunkf := scanWord rest
    let outf := scanWord chunkf.2
    if outf.1 = [] then s
    else
      processGet env s chunkf.1 outf.1 (fopen chunkf.1)
| _ => s

theorem scanWord_length
    (inp : CString) :
    (scanWord inp).1.length ≤ wordLen := by
  unfold scanWord
  exact List.length_take_le _ _

end BtPeer

------------------------------------------------------------
-- The Output File Of Later Downloads
------------------------------------------------------------

namespace BtPeer

open PeerServer

namespace Books

/-
  Downloads that were not running in `start` write to
  `file`.
-/
structure LaterFile
    (file : CString)
    (start b : Books) : Prop where
  current : b.dlFilename = file
  running :
    ∀ p, (b.slot p).downloading = true →
      (b.slot p).filename = file ∨
        ((start.slot p).downloading = true ∧
          (b.slot p).filename = (start.slot p).filename)

section

variable {file : CString}
variable {start b b' : Books}

theorem LaterFile.refl
    (b : Books) :
    LaterFile b.dlFilename b b where
  current := rfl
  running := fun _ hDownloading => Or.inr ⟨hDownloading, rfl⟩

/- Downloads may end and the rest may change. -/
theorem LaterFile.mono
    (hLater : LaterFile file start b)
    (hCurrent : b'.dlFilename = b.dlFilename)
    (hRunning :
      ∀ p, (b'.slot p).downloading = true →
        (b.slot p).downloading = true)
    (hName :
      ∀ p, (b'.slot p).filename = (b.slot p).filename) :
    LaterFile file start b' where
  current := hCurrent.trans hLater.current
  running := by
    intro p hDownloading
    rw [hName p]
    exact hLater.running p (hRunning p hDownloading)

theorem LaterFile.of_sameDownloads
    (hLater : LaterFile file start b)
    (hSame : SameDownloads b b') :
    LaterFile file start b' :=
  hLater.mono hSame.dlFilename
    (fun p hDownloading => hSame.downloading p ▸ hDownloading)
    hSame.filename

/- A download that begins writes to the current file. -/
theorem LaterFile.beginDownload
    (hLater : LaterFile file start b)
    (p i : Nat) :
    LaterFile file start (b.beginDownload p i) where
  current := hLater.current
  running := by
    intro q hDownloading
    rw [beginDownload_slot] at hDownloading ⊢
    by_cases hq : q = p
    · rw [if_pos hq]
      exact Or.inl hLater.current
    · rw [if_neg hq] at hDownloading ⊢
      exact hLater.running q hDownloading

theorem LaterFile.finishDownload
    (hLater : LaterFile file start b)
    (p : Nat)
    (w : Option Write) :
    LaterFile file start (b.finishDownload p w) := by
  apply hLater.mono (finishDownload_dlFilename b p w)
  · intro q hDownloading
    rw [finishDownload_slot] at hDownloading
    by_cases hq : q = p
    · simp [hq] at hDownloading
    · rwa [if_neg hq] at hDownloading
  · intro q
    rw [finishDownload_slot]
    by_cases hq : q = p
    · rw [if_pos hq, hq]
    · rw [if_neg hq]

theorem LaterFile.drop
    (hLater : LaterFile file start b)
    (p : Nat) :
    LaterFile file start (b.drop p) := by
  apply hLater.mono
  · simp only [Books.drop, Books.killDownload]
    split <;> rfl
  · intro q hDownloading
    by_cases hq : q = p
    · rw [hq, drop_slot_self] at hDownloading
      simp at hDownloading
    · rwa [drop_slot_of_ne b hq] at hDownloading
  · intro q
    by_cases hq : q = p
    · rw [hq, drop_slot_self]
    · rw [drop_slot_of_ne b hq]

theorem LaterFile.keeps : Keeps (LaterFile file start) where
  raise := fun b p hLater =>
    hLater.of_sameDownloads (raise_sameDownloads b p)
  beginDownload := fun _ p i _ hLater =>
    hLater.beginDownload p i
  unload := fun b p _ _ hLater =>
    hLater.of_sameDownloads (unload_sameDownloads b p)

end

end Books

/- Packets and timeout checks do not rename the file. -/
theorem step_laterFile
    (sha1 : List Byte → Nat → Byte)
    {file : CString}
    {start : Books}
    (s : PeerServer)
    (e : ServerEvent)
    (hLater : Books.LaterFile file start s.books)
    (hEvent : e.IsNotCommand) :
    Books.LaterFile file start (s.step sha1 e).books := by
  have hKeeps := @Books.LaterFile.keeps file start
  cases e with
  | packet env pkt sender =>
      apply packet_keeps hKeeps sha1 env _ _ hLater
      · intro p _
        exact hLater.finishDownload p _
      · intro p hasIndex _
        exact hLater.of_sameDownloads
          (Books.load_sameDownloads _ p _ _)
  | timeout env =>
      apply timeout_keeps hKeeps sha1 env _ hLater
      intro b p _ _ _ _ hB
      exact hB.drop p
  | command env chunkfile outputfile text =>
      exact hEvent.elim

/-
  Until the next GET command, every download that starts
  writes to the output file of this state.
-/
theorem run_laterFile
    (sha1 : List Byte → Nat → Byte)
    (s : PeerServer)
    {es : List ServerEvent}
    (hEvents : ∀ e, e ∈ es → e.IsNotCommand) :
    Books.LaterFile s.dlFilename s.books
      (EventMachine.run (PeerServer.step sha1) s es).books :=
  @EventMachine.run_invariant_along _ _
    (PeerServer.step sha1)
    (fun s' => Books.LaterFile s.dlFilename s.books s'.books)
    _ (step_laterFile sha1) s (Books.LaterFile.refl s.books)
    es (EventMachine.along_of_forall s hEvents)

end BtPeer

------------------------------------------------------------
-- Refused GET Commands
------------------------------------------------------------

namespace BtPeer

open PeerServer

/- `process_get` gives up: a name or the file is no good. -/
def RefusedGet
    (chunkfile outputfile : CString)
    (text : Option (List Char)) : Prop :=
  ¬ Named chunkfile outputfile ∨ text = none

/-
  The GET command changes nothing, now and for the chunks
  that are started later.
-/
structure LeavesNothingBehind
    (sha1 : List Byte → Nat → Byte)
    (env : Env)
    (s : PeerServer)
    (chunkfile outputfile : CString)
    (text : Option (List Char)) : Prop where
  same : processGet env s chunkfile outputfile text = s
  later :
    ∀ es : List ServerEvent,
      (∀ e, e ∈ es → e.IsNotCommand) →
      Books.LaterFile s.dlFilename s.books
        (EventMachine.run (PeerServer.step sha1)
          (processGet env s chunkfile outputfile text)
          es).books

/- Only the two names are replaced. -/
theorem processGet_unreadable
    (env : Env)
    (s : PeerServer)
    {chunkfile outputfile : CString}
    (hNamed : Named chunkfile outputfile) :
    processGet env s chunkfile outputfile none =
      { s with
        dlFilename := outputfile
        getchunkFile := chunkfile } := by
  have hOutput : ¬ btFilenameLen ≤ outputfile.length :=
    Nat.not_le.mpr hNamed.1
  have hChunk : ¬ btFilenameLen ≤ chunkfile.length :=
    Nat.not_le.mpr hNamed.2
  unfold processGet
  rw [if_neg hOutput, if_neg hChunk]
  rfl

/-
  A refused GET command leaves nothing behind if and only if
  a name is too long, or both names are the current ones.
-/
theorem refusedGet_harmless_iff
    (sha1 : List Byte → Nat → Byte)
    (env : Env)
    (s : PeerServer)
    (chunkfile outputfile : CString)
    (text : Option (List Char))
    (hRefused : RefusedGet chunkfile outputfile text) :
    LeavesNothingBehind sha1 env s chunkfile outputfile
        text ↔
      ¬ Named chunkfile outputfile ∨
        (outputfile = s.dlFilename ∧
          chunkfile = s.getchunkFile) := by
  constructor
  · intro hNothing
    by_cases hNamed : Named chunkfile outputfile
    · right
      rcases hRefused with hLong | rfl
      · exact absurd hNamed hLong
      · have hSame := hNothing.same
        rw [processGet_unreadable env s hNamed] at hSame
        exact ⟨congrArg PeerServer.dlFilename hSame,
          congrArg PeerServer.getchunkFile hSame⟩
    · exact Or.inl hNamed
  · intro hCondition
    have hSame :
        processGet env s chunkfile outputfile text = s := by
      by_cases hNamed : Named chunkfile outputfile
      · rcases hRefused with hLong | rfl
        · exact absurd hNamed hLong
        · rcases hCondition with hLong | ⟨rfl, rfl⟩
          · exact absurd hNamed hLong
          · exact processGet_unreadable env s hNamed
      · exact command_unnamed sha1 env s text hNamed
    refine ⟨hSame, ?_⟩
    intro es hEvents
    rw [hSame]
    exact run_laterFile sha1 s hEvents

/- A GET of an unreadable file, and nothing asked before. -/
theorem refusedGet_harmless_unreadable :
    LeavesNothingBehind (fun _ _ => 0) sampleEnv sampleServer
        ['c'] ['o'] none ↔
      ¬ Named ['c'] ['o'] ∨
        (['o'] = sampleServer.dlFilename ∧
          ['c'] = sampleServer.getchunkFile) :=
  refusedGet_harmless_iff (fun _ _ => 0) sampleEnv
    sampleServer ['c'] ['o'] none (Or.inr rfl)

/-
  While a list is being fetched into `x`, a GET of an
  unreadable file into `y` is refused, and the next chunk of
  the list is downloaded into `y`.
-/
theorem refusedGet_redirects :
    let before :=
      sampleServer.step (fun _ _ => 0)
        (.command sampleEnv ['a'] ['x']
          (some ('0' :: ' ' :: zeroHash)))
    let refused :=
      processGet sampleEnv before ['b'] ['y'] none
    let after :=
      refused.step (fun _ _ => 0)
        (.packet sampleEnv (samplePacket .ihave)
          sampleAddress)
    RefusedGet ['b'] ['y'] none ∧
      before.dlFilename = ['x'] ∧ before.dlRemain = 1 ∧
      refused.dlFilename = ['y'] ∧
      (after.peer 0).isDownloading = true ∧
      (after.peer 0).dl.filename = ['y'] ∧
      ¬ LeavesNothingBehind (fun _ _ => 0) sampleEnv before
        ['b'] ['y'] none := by
  refine ⟨Or.inr rfl, by decide +kernel, by decide +kernel,
    by decide +kernel, by decide +kernel,
    by decide +kernel, ?_⟩
  intro hNothing
  have hName :=
    congrArg PeerServer.dlFilename hNothing.same
  exact absurd hName (by decide +kernel)

end BtPeer
