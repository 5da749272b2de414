import BtPeer.Server.Books
import BtPeer.Transfer.Sender

/-
  Every helper of the server is an action on its books, or
  leaves them alone.

  Key definitions include:
    * `Books.Keeps`
    * `savedWrite`
    * `startsUpload`

  Key theorems include:
    * `trySendGet_books`
    * `completeDownload_books`
    * `startUpload_books`
    * `refreshChunkDownload_keeps`
-/

------------------------------------------------------------
-- Functions That Leave The Books Alone
------------------------------------------------------------

namespace BtPeer

open PeerServer

theorem books_raise
    (s : PeerServer)
    (p : Nat) :
    (s.setPeer p { s.peer p with isAlive := true }).books =
      s.books.raise p := by
  rw [books_setPeer]
  rfl

theorem books_setPeer_same
    {s : PeerServer}
    {p : Nat}
    {pr : Peer}
    (hSame : pr.slot = (s.peer p).slot) :
    (s.setPeer p pr).books = s.books := by
  rw [books_setPeer]
  exact Books.setSlot_eq_self hSame

theorem sendIhave_books
    (env : Env)
    (s : PeerServer)
    (pkt : Packet)
    (p : Nat) :
    (sendIhave env s pkt p).books = s.books := by
  simp only [sendIhave]
  split <;> rfl

theorem parseDownload_books
    (env : Env)
    (s : PeerServer)
    (pkt : Packet)
    (p : Nat) :
    (parseDownload env s pkt p).1.books = s.books := by
  unfold parseDownload
  split <;> exact books_setPeer_same rfl

/- The chunk and the file of a download stay the same. -/
theorem slot_of_sameTarget
    {pr : Peer}
    {dl : Download}
    (hSame : pr.dl.SameTarget dl) :
    ({ pr with dl := dl } : Peer).slot = pr.slot := by
  simp only [Peer.slot, hSame.getIndex, hSame.filename]

/- An upload stays mapped. -/
theorem slot_of_data
    {pr : Peer}
    {ul : Upload}
    (hData : ul.data = pr.ul.data) :
    ({ pr with ul := ul } : Peer).slot = pr.slot := by
  simp only [Peer.slot, hData]

theorem updateDownload_books
    (env : Env)
    (s : PeerServer)
    (p : Nat)
    (pkt : Packet) :
    (updateDownload env s p pkt).books = s.books := by
  unfold updateDownload
  exact books_setPeer_same
    (slot_of_sameTarget
      (dlRecv_sameTarget env.rttNow (env.dlTs p)
        (s.peer p).dl pkt))

theorem updateUpload_books
    (env : Env)
    (s : PeerServer)
    (p : Nat)
    (pkt : Packet) :
    (updateUpload env s p pkt).books = s.books := by
  unfold updateUpload
  refine books_setPeer_same (slot_of_data ?_)
  exact (ulSend_same _ _).data.trans
    (ulHandleAck_effect env.rttNow (s.peer p).ul
      pkt.ack).data

theorem checkDownload_books
    (env : Env)
    (s : PeerServer)
    (i : Nat) :
    (checkDownload env s i).1.books = s.books := by
  unfold checkDownload
  exact books_setPeer_same
    (slot_of_sameTarget
      (dlCheckTimeout_sameTarget (env.dlNow i) (env.dlTs i)
        (s.peer i).dl))

theorem ulCheckTimeout_data
    (now : Word)
    (ts : Word → Word)
    (ul : Upload) :
    (ulCheckTimeout now ts ul).1.data = ul.data := by
  have hGrow := (growCa_sameCounters now ul).data
  unfold ulCheckTimeout
  split
  · rfl
  · dsimp only
    split
    · exact (ulSend_same ts _).data.trans hGrow
    · exact hGrow

theorem checkUpload_books
    (env : Env)
    (s : PeerServer)
    (i : Nat) :
    (checkUpload env s i).1.books = s.books := by
  unfold checkUpload
  exact books_setPeer_same
    (slot_of_data
      (ulCheckTimeout_data (env.ulNow i) (env.sendTs i)
        (s.peer i).ul))

theorem askAgain_books
    (env : Env)
    (s : PeerServer) :
    (askAgain env s).books = s.books := by
  unfold askAgain
  split <;> rfl

end BtPeer

------------------------------------------------------------
-- Beginning Downloads
------------------------------------------------------------

namespace BtPeer

open PeerServer

theorem startDownload_books
    (env : Env)
    (s : PeerServer)
    (p i : Nat) :
    (startDownload env s p i).books =
      { s.books.setSlot p
          { (s.peer p).slot with
            getIndex := i
            filename := s.dlFilename } with
        dlNum := s.dlNum + 1 } := by
  calc
    (startDownload env s p i).books =
        { (s.setPeer p
            { s.peer p with
              dl :=
                dlInit (env.dlInitTs p) p i
                  s.dlFilename }).books with
          dlNum := s.dlNum + 1 } := rfl
    _ = _ := by
      rw [books_setPeer]
      rfl

/- Chunk `i`, found in the queue, is asked for at peer `p`. -/
theorem sendGet_startDownload_books
    (env : Env)
    (s : PeerServer)
    (p i : Nat)
    (dq : List CString) :
    let found :=
      s.setPeer p
        { s.peer p with
          hasqueue := dq
          dl := { (s.peer p).dl with getIndex := i } }
    let asked := sendGet env found p i
    let active :=
      asked.setPeer p
        { asked.peer p with isDownloading := true }
    (startDownload env active p i).books =
      s.books.beginDownload p i := by
  intro found asked active
  have hFound :
      found.books =
        s.books.setSlot p
          { (s.peer p).slot with getIndex := i } :=
    books_setPeer s p _
  have hAsked :
      asked.books = found.books.setState i .fetching := rfl
  have hPeer :
      asked.peer p =
        { s.peer p with
          hasqueue := dq
          dl := { (s.peer p).dl with getIndex := i } } := by
    change found.peer p = _
    simp [found]
  have hActive :
      active.books =
        asked.books.setSlot p
          { (s.peer p).slot with
            downloading := true
            getIndex := i } := by
    simp only [active, books_setPeer, hPeer]
    rfl
  have hSlot :
      (active.peer p).slot =
        { (s.peer p).slot with
          downloading := true
          getIndex := i } := by
    simp only [active, setPeer_peer, if_true, hPeer]
    rfl
  rw [startDownload_books, hActive, hAsked, hFound, hSlot]
  ext q
  case slot =>
    by_cases hq : q = p
    · simp [hq, Books.setState, Books.beginDownload]
      rfl
    · simp [hq, Books.setState, Books.beginDownload]
  all_goals rfl

/- `try_send_get` begins a download or does nothing. -/
theorem trySendGet_books
    (env : Env)
    (s : PeerServer)
    (p : Nat) :
    (trySendGet env s p).books = s.books ∨
      ∃ i, i < s.getchunks.count ∧
        (s.getchunks.chunks i).state = .unfetched ∧
        (trySendGet env s p).books =
          s.books.beginDownload p i := by
  unfold trySendGet findUnfetchedChunk
  cases hSearch :
      searchQueue s.getchunks (s.peer p).hasqueue with
  | none => exact Or.inl rfl
  | some found =>
      rcases found with ⟨i, dq⟩
      rcases searchQueue_spec hSearch with ⟨hLt, hState, _⟩
      exact Or.inr ⟨i, hLt, hState,
        sendGet_startDownload_books env s p i dq⟩

namespace Books

/-
  The actions that nothing but the server's own tests guard
  keep `inv`.
-/
structure Keeps (inv : Books → Prop) : Prop where
  raise : ∀ b p, inv b → inv (b.raise p)
  beginDownload :
    ∀ b p i, b.CanBegin p i → inv b →
      inv (b.beginDownload p i)
  unload :
    ∀ b p, p < b.count → (b.slot p).uploading = true →
      inv b → inv (b.unload p)

/- What is kept from one of several bases is kept. -/
theorem Keeps.exists
    {ι : Type*}
    {base : ι → Prop}
    {inv : ι → Books → Prop}
    (hKeeps : ∀ i, Keeps (inv i)) :
    Keeps (fun b => ∃ i, base i ∧ inv i b) where
  raise := by
    rintro b p ⟨i, hBase, hInv⟩
    exact ⟨i, hBase, (hKeeps i).raise b p hInv⟩
  beginDownload := by
    rintro b p k hBegin ⟨i, hBase, hInv⟩
    exact ⟨i, hBase,
      (hKeeps i).beginDownload b p k hBegin hInv⟩
  unload := by
    rintro b p hPeer hUploading ⟨i, hBase, hInv⟩
    exact ⟨i, hBase,
      (hKeeps i).unload b p hPeer hUploading hInv⟩

end Books

theorem trySendGet_keeps
    {inv : Books → Prop}
    (hKeeps : Books.Keeps inv)
    (env : Env)
    {s : PeerServer}
    {p : Nat}
    (hPeer : p < s.peerlist.count)
    (hAlive : (s.peer p).isAlive = true)
    (hFree : (s.peer p).isDownloading = false)
    (hRoom : s.dlNum < s.maxConn)
    (hInv : inv s.books) :
    inv (trySendGet env s p).books := by
  rcases trySendGet_books env s p with
    hSame | ⟨i, hIndex, hState, hBegin⟩
  · exact hSame ▸ hInv
  · rw [hBegin]
    exact hKeeps.beginDownload s.books p i
      ⟨hPeer, hAlive, hFree, hRoom, hIndex, hState⟩ hInv

/- `try_send_get` knows as many peers as before. -/
theorem trySendGet_count
    (env : Env)
    (s : PeerServer)
    (p : Nat) :
    (trySendGet env s p).peerlist.count =
      s.peerlist.count := by
  rcases trySendGet_books env s p with hSame | ⟨i, _, _, hBegin⟩
  · exact congrArg Books.count hSame
  · exact congrArg Books.count hBegin

theorem refreshLoop_keeps
    {inv : Books → Prop}
    (hKeeps : Books.Keeps inv)
    (env : Env)
    (k i : Nat)
    {s : PeerServer}
    (hCount : i + k = s.peerlist.count)
    (hInv : inv s.books) :
    inv (refreshLoop env k i s).books := by
  induction k generalizing i s with
  | zero => exact hInv
  | succ k ih =>
      simp only [refreshLoop]
      split
      · exact hInv
      · rename_i hRoom
        split
        · exact ih (i + 1) (by omega) hInv
        · rename_i hGood
          simp only [notGoodForDownload, Bool.or_eq_true,
            Bool.not_eq_true', not_or, Bool.not_eq_false,
            Bool.not_eq_true] at hGood
          apply ih (i + 1)
          · rw [trySendGet_count]
            omega
          · exact trySendGet_keeps hKeeps env (by omega)
              hGood.1 hGood.2 (by omega) hInv

theorem refreshChunkDownload_keeps
    {inv : Books → Prop}
    (hKeeps : Books.Keeps inv)
    (env : Env)
    {s : PeerServer}
    (hInv : inv s.books) :
    inv (refreshChunkDownload env s).books := by
  unfold refreshChunkDownload
  rw [askAgain_books]
  exact refreshLoop_keeps hKeeps env s.peerlist.count 0
    (Nat.zero_add _) hInv

end BtPeer

------------------------------------------------------------
-- Completing Downloads
------------------------------------------------------------

namespace BtPeer

open PeerServer

/- The write of `dl_save_buffer` for peer `p`. -/
def bufferWrite
    (env : Env)
    (s : PeerServer)
    (p : Nat) : Write where
  position := savePosition env s (s.peer p).dl
  buffer := (s.peer p).dl.buffer
  length := min env.written btChunkSize

/- What a complete download of peer `p` writes, if it does. -/
def savedWrite
    (sha1 : List Byte → Nat → Byte)
    (env : Env)
    (s : PeerServer)
    (p : Nat) : Option Write :=
  if checkHashSucceed sha1 s (s.peer p).dl ∧ env.openOk then
    some (bufferWrite env s p)
  else none

/- The chunk that peer `p` downloads is in the books. -/
theorem chunk_of_books
    {s s' : PeerServer}
    (hBooks : s'.books = s.books)
    (p : Nat) :
    s'.getchunks.chunks (s'.peer p).dl.getIndex =
      s.getchunks.chunks (s.peer p).dl.getIndex := by
  have hList : s'.getchunks = s.getchunks :=
    congrArg Books.getchunks hBooks
  have hIndex :
      (s'.peer p).dl.getIndex = (s.peer p).dl.getIndex :=
    congrArg Slot.getIndex
      (congrFun (congrArg Books.slot hBooks) p)
  rw [hList, hIndex]

theorem savePosition_of_books
    (env : Env)
    {s s' : PeerServer}
    (hBooks : s'.books = s.books)
    (p : Nat) :
    savePosition env s' (s'.peer p).dl =
      savePosition env s (s.peer p).dl := by
  unfold savePosition seekOffset
  rw [chunk_of_books hBooks p]

theorem writeBuffer_books
    (env : Env)
    (s : PeerServer)
    (p : Nat) :
    (writeBuffer env s (s.peer p).dl).books =
      s.books.writeFile p (bufferWrite env s p) := rfl

theorem bufferWrite_full
    (env : Env)
    (s : PeerServer)
    (p : Nat) :
    btChunkSize ≤ (bufferWrite env s p).length ↔
      btChunkSize ≤ env.written := by
  simp only [bufferWrite]
  omega

theorem dlSaveBuffer_books
    {env : Env}
    (hOpen : env.openOk)
    (s : PeerServer)
    (p : Nat) :
    (dlSaveBuffer env s (s.peer p).dl).1.books =
      s.books.save p (some (bufferWrite env s p)) := by
  unfold dlSaveBuffer
  rw [if_pos hOpen]
  have hFull := bufferWrite_full env s p
  by_cases hWritten : btChunkSize ≤ env.written
  · simp only [Books.save, if_pos hWritten,
      if_pos (hFull.mpr hWritten)]
    rfl
  · simp only [Books.save, if_neg hWritten,
      if_neg (fun hLe => hWritten (hFull.mp hLe))]
    exact writeBuffer_books env s p

theorem save_books
    (sha1 : List Byte → Nat → Byte)
    (env : Env)
    (s : PeerServer)
    (p : Nat) :
    (if checkHashSucceed sha1 s (s.peer p).dl then
        (dlSaveBuffer env s (s.peer p).dl).1
      else s).books =
      s.books.save p (savedWrite sha1 env s p) := by
  unfold savedWrite
  by_cases hHash : checkHashSucceed sha1 s (s.peer p).dl
  · by_cases hOpen : env.openOk
    · rw [if_pos hHash, if_pos ⟨hHash, hOpen⟩]
      exact dlSaveBuffer_books hOpen s p
    · rw [if_pos hHash,
        if_neg (fun hBoth => hOpen hBoth.2)]
      unfold dlSaveBuffer
      rw [if_neg hOpen]
      rfl
  · rw [if_neg hHash, if_neg (fun hBoth => hHash hBoth.1)]
    rfl

theorem release_books
    (s : PeerServer)
    (i : Nat) :
    (if (s.getchunks.chunks i).state ≠ .fetched then
        s.setState i .unfetched
      else s).books = s.books.release i := by
  by_cases hState : (s.getchunks.chunks i).state ≠ .fetched
  · calc
      _ = (s.setState i .unfetched).books :=
        congrArg books (if_pos hState)
      _ = _ := (if_pos hState).symm
  · calc
      _ = s.books := congrArg books (if_neg hState)
      _ = _ := (if_neg hState).symm

theorem completeDownload_books
    (sha1 : List Byte → Nat → Byte)
    (env : Env)
    (s : PeerServer)
    (p : Nat) :
    (completeDownload sha1 env s p).books =
      s.books.finishDownload p (savedWrite sha1 env s p) := by
  let ended : PeerServer :=
    ({ s with dlNum := s.dlNum - 1 } : PeerServer).setPeer p
      { s.peer p with isDownloading := false }
  have hEnded :
      ended.books =
        { s.books.setSlot p
            { s.books.slot p with downloading := false } with
          dlNum := s.books.dlNum - 1 } := by
    simp only [ended, books_setPeer]
    rfl
  have hDl : (ended.peer p).dl = (s.peer p).dl := by
    simp [ended]
  have hWrite :
      savedWrite sha1 env ended p =
        savedWrite sha1 env s p := by
    simp only [savedWrite, bufferWrite, hDl]
    rfl
  have hSave := save_books sha1 env ended p
  rw [hWrite, hEnded] at hSave
  have hIndex :
      (ended.peer p).dl.getIndex =
        (s.books.slot p).getIndex := by
    rw [hDl]
    rfl
  calc
    (completeDownload sha1 env s p).books =
        (if checkHashSucceed sha1 ended (ended.peer p).dl then
            (dlSaveBuffer env ended (ended.peer p).dl).1
          else ended).books.release
            (ended.peer p).dl.getIndex :=
      release_books _ _
    _ = _ := by
      rw [hSave, hIndex]
      rfl

end BtPeer

------------------------------------------------------------
-- Uploads
------------------------------------------------------------

namespace BtPeer

open PeerServer

theorem finishUpload_books
    (s : PeerServer)
    (p : Nat) :
    (finishUpload s p).books =
      { s.books.setSlot p
          { s.books.slot p with mapped := false } with
        ulNum := s.books.ulNum - 1 } := by
  calc
    (finishUpload s p).books =
        { (s.setPeer p
            { s.peer p with
              ul := ulDeinit (s.peer p).ul }).books with
          ulNum := s.ulNum - 1 } := rfl
    _ = _ := by
      rw [books_setPeer]
      rfl

@[simp] theorem finishUpload_peer
    (s : PeerServer)
    (p q : Nat) :
    (finishUpload s p).peer q =
      if q = p then
        { s.peer p with ul := ulDeinit (s.peer p).ul }
      else s.peer q :=
  setPeer_peer s p q _

/- Whether the first segment of an upload is sent for good. -/
def startsUpload
    (env : Env)
    (s : PeerServer)
    (p hasIndex : Nat) : Bool :=
  (loadData env s hasIndex).isSome &&
    decide (env.sendTs p 1 ≠ 0)

theorem startUpload_books
    (env : Env)
    (s : PeerServer)
    (p hasIndex : Nat) :
    (startUpload env s p hasIndex).1.books =
      { s.books.setSlot p
          { s.books.slot p with
            mapped := (loadData env s hasIndex).isSome } with
        ulNum :=
          if startsUpload env s p hasIndex then
            s.books.ulNum + 1
          else s.books.ulNum } := by
  cases hData : loadData env s hasIndex with
  | none =>
      simp only [startUpload, startsUpload, ulInit, hData,
        Option.isSome_none, Bool.false_and, books_setPeer]
      rfl
  | some data =>
      have hFirst :=
        (ulSend_init (env.sendTs p) p hasIndex
          (some data)).1
      have hKept :=
        (ulSend_same (env.sendTs p)
          (ulInit p hasIndex (some data)).1).data
      have hInit :
          ulInit p hasIndex (some data) =
            ((ulInit p hasIndex (some data)).1, true) := rfl
      simp only [startsUpload, hData, Option.isSome_some,
        Bool.true_and, ← hFirst]
      unfold startUpload
      rw [hData, hInit]
      dsimp only
      rcases hSend :
          ulSend (env.sendTs p)
            (ulInit p hasIndex (some data)).1 with
        ⟨ul, sent, ok⟩
      rw [hSend] at hKept
      have hMapped : ul.data = some data := hKept
      have hSlot :
          ({ s.peer p with ul := ul } : Peer).slot =
            { s.books.slot p with mapped := true } := by
        simp only [Peer.slot, hMapped]
        rfl
      rw [← hSlot, ← books_setPeer]
      cases ok with
      | false => rfl
      | true => rfl

end BtPeer
