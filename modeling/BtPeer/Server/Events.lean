import BtPeer.Server.Refinement

/-
  Every event of the server is a sequence of actions on its
  books. What the actions keep, the server keeps.

  Key definitions include:
    * `Admits`
    * `Completes`
    * `TimedOut`

  Key theorems include:
    * `packet_keeps`
    * `timeout_keeps`
    * `command_books`
-/

------------------------------------------------------------
-- Handlers
------------------------------------------------------------

namespace BtPeer

open PeerServer

/- What a GET packet must meet to have its chunk uploaded. -/
structure Admits
    (s : PeerServer)
    (pkt : Packet)
    (sender : Address)
    (p hasIndex : Nat) : Prop where
  valid : validPacket pkt = true
  type : PacketType.ofCode pkt.type = some .get
  sender : addr2Index s sender = some p
  alive : (s.peer p).isAlive = true
  room : s.ulNum < s.maxConn
  found :
    hash2Index s.haschunks (pkt.getHash 0) = some hasIndex

theorem handleGet_admitted
    (env : Env)
    {s : PeerServer}
    {pkt : Packet}
    {p hasIndex : Nat}
    (hAlive : (s.peer p).isAlive = true)
    (hRoom : s.ulNum < s.maxConn)
    (hFound :
      hash2Index s.haschunks (pkt.getHash 0) =
        some hasIndex) :
    (handleGet env s pkt p).books =
      s.books.load p (loadData env s hasIndex).isSome
        (startsUpload env s p hasIndex) := by
  let freed : PeerServer :=
    if (s.peer p).isUploading then finishUpload s p else s
  let started : PeerServer :=
    (startUpload env freed p hasIndex).1
  have hHandle :
      handleGet env s pkt p =
        started.setPeer p
          { started.peer p with isUploading := true } := by
    have hConn : ¬ s.maxConn ≤ s.ulNum := Int.not_le.mpr hRoom
    simp only [handleGet, hAlive, hConn, hFound, if_false,
      Bool.not_true, Bool.false_eq_true]
    rfl
  have hStarted := startUpload_books env freed p hasIndex
  have hSame :
      loadData env freed hasIndex = loadData env s hasIndex ∧
        startsUpload env freed p hasIndex =
          startsUpload env s p hasIndex := by
    dsimp only [freed]
    split <;> exact ⟨rfl, rfl⟩
  rw [hSame.1, hSame.2] at hStarted
  have hSlot :
      ({ started.peer p with isUploading := true } :
          Peer).slot =
        { freed.books.slot p with
          uploading := true
          mapped := (loadData env s hasIndex).isSome } := by
    calc
      _ = { started.books.slot p with uploading := true } :=
        rfl
      _ = _ := by
        rw [hStarted]
        simp only [Books.setSlot_slot, if_true]
  rw [hHandle, books_setPeer, hSlot, hStarted]
  by_cases hUploading : (s.peer p).isUploading = true
  · have hFreed : freed = finishUpload s p :=
      if_pos hUploading
    have hSlotUp : (s.books.slot p).uploading = true :=
      hUploading
    rw [hFreed, finishUpload_books]
    simp only [Books.load, Books.setSlot, hSlotUp, if_true,
      Function.update_idem, Function.update_self]
  · have hFreed : freed = s := if_neg hUploading
    have hSlotUp : ¬ (s.books.slot p).uploading = true :=
      hUploading
    rw [hFreed]
    simp only [Books.load, Books.setSlot, hSlotUp,
      Function.update_idem]
    rfl

/- A GET either loads a chunk or leaves the books alone. -/
theorem handleGet_books
    (env : Env)
    (s : PeerServer)
    (pkt : Packet)
    (p : Nat) :
    (handleGet env s pkt p).books = s.books ∨
      ∃ hasIndex,
        (s.peer p).isAlive = true ∧
          s.ulNum < s.maxConn ∧
          hash2Index s.haschunks (pkt.getHash 0) =
            some hasIndex := by
  by_cases hAlive : (s.peer p).isAlive = true
  · by_cases hRoom : s.ulNum < s.maxConn
    · cases hFound :
          hash2Index s.haschunks (pkt.getHash 0) with
      | none =>
          have hConn : ¬ s.maxConn ≤ s.ulNum :=
            Int.not_le.mpr hRoom
          left
          simp only [handleGet, hAlive, hConn, hFound,
            if_false, Bool.not_true, Bool.false_eq_true]
      | some hasIndex =>
          exact Or.inr ⟨hasIndex, hAlive, hRoom, rfl⟩
    · have hConn : s.maxConn ≤ s.ulNum := Int.not_lt.mp hRoom
      left
      simp only [handleGet, hConn, if_true, ite_self]
  · left
    simp only [handleGet, hAlive, Bool.not_false, if_true]

/- The end of an upload in the ACK branch. -/
theorem unload_books
    (s : PeerServer)
    (p : Nat) :
    ((finishUpload s p).setPeer p
        { (finishUpload s p).peer p with
          isUploading := false }).books =
      s.books.unload p := by
  rw [books_setPeer, finishUpload_books]
  simp only [finishUpload_peer, if_true, Books.unload,
    Books.setSlot, Function.update_idem]
  rfl

theorem handleAck_keeps
    {inv : Books → Prop}
    (hKeeps : Books.Keeps inv)
    (env : Env)
    {s : PeerServer}
    (pkt : Packet)
    {p : Nat}
    (hPeer : p < s.peerlist.count)
    (hInv : inv s.books) :
    inv (handleAck env s pkt p).books := by
  unfold handleAck
  split
  · exact hInv
  · rename_i hActive
    simp only [Bool.or_eq_true, Bool.not_eq_true', not_or,
      Bool.not_eq_false] at hActive
    have hUpdate := updateUpload_books env s p pkt
    rw [← hUpdate] at hInv
    dsimp only
    split
    · rw [unload_books]
      refine hKeeps.unload _ p ?_ ?_ hInv
      · rw [hUpdate]
        exact hPeer
      · rw [hUpdate]
        exact hActive.2
    · exact hInv

theorem handleWhohas_keeps
    {inv : Books → Prop}
    (hKeeps : Books.Keeps inv)
    (env : Env)
    {s : PeerServer}
    (pkt : Packet)
    (p : Nat)
    (hInv : inv s.books) :
    inv (handleWhohas env s pkt p).books := by
  have hRaise := hKeeps.raise s.books p hInv
  rw [← books_raise] at hRaise
  unfold handleWhohas
  split
  · exact hInv
  · dsimp only
    split
    · exact hRaise
    · rw [sendIhave_books]
      exact hRaise

theorem handleIhave_keeps
    {inv : Books → Prop}
    (hKeeps : Books.Keeps inv)
    (env : Env)
    {s : PeerServer}
    (pkt : Packet)
    {p : Nat}
    (hPeer : p < s.peerlist.count)
    (hInv : inv s.books) :
    inv (handleIhave env s pkt p).books := by
  have hRaise := hKeeps.raise s.books p hInv
  rw [← books_raise] at hRaise
  let raised : PeerServer :=
    s.setPeer p { s.peer p with isAlive := true }
  have hParse := parseDownload_books env raised pkt p
  unfold handleIhave
  dsimp only
  split
  · exact hRaise
  · rename_i hFree
    split
    · rename_i parsed hOut
      rw [show parsed.books = raised.books from ?_]
      · exact hRaise
      · rw [← hParse, hOut]
    · rename_i parsed hOut
      have hBooks : parsed.books = raised.books := by
        rw [← hParse, hOut]
      have hParsed : inv parsed.books := hBooks ▸ hRaise
      split
      · exact hParsed
      · rename_i hRoom
        have hSlot :
            (parsed.peer p).slot = (raised.peer p).slot :=
          congrFun (congrArg Books.slot hBooks) p
        have hCount :
            parsed.peerlist.count = raised.peerlist.count :=
          congrArg Books.count hBooks
        apply trySendGet_keeps hKeeps env _ _ _ _ hParsed
        · rw [hCount]
          exact hPeer
        · calc
            (parsed.peer p).isAlive =
                (raised.peer p).isAlive :=
              congrArg Slot.alive hSlot
            _ = true := by simp [raised]
        · calc
            (parsed.peer p).isDownloading =
                (raised.peer p).isDownloading :=
              congrArg Slot.downloading hSlot
            _ = false := Bool.eq_false_of_not_eq_true hFree
        · exact Int.not_le.mp hRoom

/- What makes a DATA packet complete a download. -/
structure Completes
    (env : Env)
    (s : PeerServer)
    (pkt : Packet)
    (sender : Address)
    (p : Nat) : Prop where
  valid : validPacket pkt = true
  type : PacketType.ofCode pkt.type = some .data
  sender : addr2Index s sender = some p
  alive : (s.peer p).isAlive = true
  downloading : (s.peer p).isDownloading = true
  finished :
    (dlRecv env.rttNow (env.dlTs p) (s.peer p).dl
      pkt).1.finished = true

/- The download of peer `p` behind the packet. -/
theorem updateDownload_dl
    (env : Env)
    (s : PeerServer)
    (p : Nat)
    (pkt : Packet) :
    ((updateDownload env s p pkt).peer p).dl =
      (dlRecv env.rttNow (env.dlTs p) (s.peer p).dl
        pkt).1 := by
  unfold updateDownload
  simp only [sendAll_peer, setPeer_peer, if_true]

/-
  The write that completes the download of peer `p`, when the
  packet is the last one.
-/
def lastWrite
    (sha1 : List Byte → Nat → Byte)
    (env : Env)
    (s : PeerServer)
    (pkt : Packet)
    (p : Nat) : Option Write :=
  savedWrite sha1 env (updateDownload env s p pkt) p

theorem handleData_keeps
    {inv : Books → Prop}
    (hKeeps : Books.Keeps inv)
    (sha1 : List Byte → Nat → Byte)
    (env : Env)
    {s : PeerServer}
    {pkt : Packet}
    {p : Nat}
    (hFinish :
      (s.peer p).isAlive = true →
      (s.peer p).isDownloading = true →
      (dlRecv env.rttNow (env.dlTs p) (s.peer p).dl
        pkt).1.finished = true →
      inv
        (s.books.finishDownload p
          (lastWrite sha1 env s pkt p)))
    (hInv : inv s.books) :
    inv (handleData sha1 env s pkt p).books := by
  have hUpdate := updateDownload_books env s p pkt
  have hDl := updateDownload_dl env s p pkt
  have hComplete :=
    completeDownload_books sha1 env
      (updateDownload env s p pkt) p
  rw [hUpdate] at hComplete
  unfold handleData
  split
  · exact hInv
  · rename_i hActive
    simp only [Bool.or_eq_true, Bool.not_eq_true', not_or,
      Bool.not_eq_false] at hActive
    dsimp only
    split
    · rename_i hFinished
      rw [hDl] at hFinished
      have hDone :=
        hFinish hActive.1 hActive.2 hFinished
      rw [lastWrite, ← hComplete] at hDone
      split
      · exact refreshChunkDownload_keeps hKeeps env hDone
      · exact hDone
    · rw [hUpdate]
      exact hInv

end BtPeer

------------------------------------------------------------
-- Packets
------------------------------------------------------------

namespace BtPeer

open PeerServer

/-
  What the actions keep is kept by a packet, when the end of
  a download and the start of an upload keep it.
-/
theorem packet_keeps
    {inv : Books → Prop}
    (hKeeps : Books.Keeps inv)
    (sha1 : List Byte → Nat → Byte)
    (env : Env)
    {s : PeerServer}
    {pkt : Packet}
    {sender : Address}
    (hFinish :
      ∀ p, Completes env s pkt sender p →
        inv
          (s.books.finishDownload p
            (lastWrite sha1 env s pkt p)))
    (hLoad :
      ∀ p hasIndex, Admits s pkt sender p hasIndex →
        inv
          (s.books.load p (loadData env s hasIndex).isSome
            (startsUpload env s p hasIndex)))
    (hInv : inv s.books) :
    inv (s.step sha1 (.packet env pkt sender)).books := by
  simp only [PeerServer.step]
  split
  · rename_i hValid
    unfold parsePacket
    cases hSender : addr2Index s sender with
    | none => exact hInv
    | some p =>
        have hPeer := addr2Index_lt hSender
        dsimp only
        split
        · exact handleWhohas_keeps hKeeps env pkt p hInv
        · exact handleIhave_keeps hKeeps env pkt hPeer hInv
        · rename_i hType
          rcases handleGet_books env s pkt p with
            hSame | ⟨hasIndex, hAlive, hRoom, hFound⟩
          · rw [hSame]
            exact hInv
          · rw [handleGet_admitted env hAlive hRoom hFound]
            exact hLoad p hasIndex
              ⟨hValid, hType, hSender, hAlive, hRoom, hFound⟩
        · rename_i hType
          apply handleData_keeps hKeeps sha1 env _ hInv
          intro hAlive hDownloading hFinished
          exact hFinish p
            ⟨hValid, hType, hSender, hAlive, hDownloading,
              hFinished⟩
        · exact handleAck_keeps hKeeps env pkt hPeer hInv
        · exact hInv
  · exact hInv

end BtPeer

------------------------------------------------------------
-- Timeouts
------------------------------------------------------------

namespace BtPeer

open PeerServer

/- The download from peer `p` has timed out too often. -/
structure DownloadTimedOut
    (env : Env)
    (s : PeerServer)
    (p : Nat) : Prop where
  downloading : (s.peer p).isDownloading = true
  late :
    maxTimeoutCnt <
      (dlCheckTimeout (env.dlNow p) (env.dlTs p)
        (s.peer p).dl).2.2

/- The upload to peer `p` has timed out too often. -/
structure UploadTimedOut
    (env : Env)
    (s : PeerServer)
    (p : Nat) : Prop where
  uploading : (s.peer p).isUploading = true
  late :
    maxTimeoutCnt <
      (ulCheckTimeout (env.ulNow p) (env.sendTs p)
        (s.peer p).ul).2.2

/- When the timeout check gives peer `p` up. -/
structure TimedOut
    (env : Env)
    (s : PeerServer)
    (p : Nat) : Prop where
  alive : (s.peer p).isAlive = true
  late : DownloadTimedOut env s p ∨ UploadTimedOut env s p

theorem killDownload_books
    {s : PeerServer}
    {p : Nat}
    (hDownloading : (s.peer p).isDownloading = true) :
    (killDownload s (s.peer p).dl).books =
      s.books.killDownload p :=
  (if_pos hDownloading).symm

@[simp] theorem killDownload_peer
    (s : PeerServer)
    (dl : Download)
    (q : Nat) :
    (killDownload s dl).peer q = s.peer q := rfl

theorem abortDownload_books
    {s : PeerServer}
    {p : Nat}
    (hDownloading : (s.peer p).isDownloading = true) :
    (abortDownload s p).books = s.books.drop p := by
  have hKill := killDownload_books hDownloading
  have hUlNum : (s.books.killDownload p).ulNum = s.books.ulNum := by
    rw [← hKill]
    rfl
  unfold abortDownload
  dsimp only
  by_cases hUploading : (s.peer p).isUploading = true
  · have hSlot : (s.books.slot p).uploading = true :=
      hUploading
    rw [if_pos (show ((killDownload s _).peer p).isUploading =
      true from hUploading), books_setPeer,
      finishUpload_books, hKill]
    simp only [Books.drop, Books.setSlot, hSlot, if_true,
      Function.update_idem, hUlNum, finishUpload_peer,
      killDownload_peer, Bool.not_true, Bool.and_false]
    rfl
  · have hSlot : (s.books.slot p).uploading = false :=
      Bool.eq_false_of_not_eq_true hUploading
    rw [if_neg (show ¬ ((killDownload s _).peer p).isUploading =
      true from hUploading), books_setPeer, hKill]
    simp only [Books.drop, hSlot, Bool.not_false,
      Bool.and_true, killDownload_peer, Bool.false_eq_true,
      if_false]
    rw [← hUlNum]
    rfl

theorem abortUpload_books
    {s : PeerServer}
    {p : Nat}
    (hUploading : (s.peer p).isUploading = true) :
    (abortUpload s p).books = s.books.drop p := by
  have hSlot : (s.books.slot p).uploading = true := hUploading
  have hFinish := finishUpload_books s p
  unfold abortUpload
  dsimp only
  by_cases hDownloading : (s.peer p).isDownloading = true
  · have hStill :
        ((finishUpload s p).peer p).isDownloading = true := by
      simpa using hDownloading
    have hSlotDown : (s.books.slot p).downloading = true :=
      hDownloading
    rw [if_pos hStill, books_setPeer,
      killDownload_books hStill, hFinish]
    simp only [Books.drop, Books.killDownload, Books.setSlot,
      Books.setState, hSlot, hSlotDown, if_true,
      Function.update_idem, Function.update_self,
      finishUpload_peer, killDownload_peer, Bool.not_true,
      Bool.and_false]
    rfl
  · have hStill :
        ¬ ((finishUpload s p).peer p).isDownloading = true := by
      simpa using hDownloading
    have hSlotDown : ¬ (s.books.slot p).downloading = true :=
      hDownloading
    rw [if_neg hStill, books_setPeer, hFinish]
    simp only [Books.drop, Books.killDownload, Books.setSlot,
      hSlot, hSlotDown, if_true, Function.update_idem,
      finishUpload_peer, Bool.not_true, Bool.and_false]
    rfl

theorem checkDownloading_active
    (env : Env)
    {s : PeerServer}
    {i : Nat}
    (hActive : (s.peer i).isDownloading = true) :
    checkDownloading env s i =
      if maxTimeoutCnt < (checkDownload env s i).2 then
        abortDownload (checkDownload env s i).1 i
      else (checkDownload env s i).1 :=
  if_pos hActive

theorem checkUploading_active
    (env : Env)
    {s : PeerServer}
    {i : Nat}
    (hActive : (s.peer i).isUploading = true) :
    checkUploading env s i =
      if maxTimeoutCnt < (checkUpload env s i).2 then
        abortUpload (checkUpload env s i).1 i
      else (checkUpload env s i).1 :=
  if_pos hActive

/- The first test gives peer `i` up or keeps its upload. -/
theorem checkDownloading_books
    (env : Env)
    (s : PeerServer)
    (i : Nat) :
    DownloadTimedOut env s i ∧
        (checkDownloading env s i).books = s.books.drop i ∨
      (checkDownloading env s i).books = s.books ∧
        ((checkDownloading env s i).peer i).ul =
          (s.peer i).ul := by
  have hCheck := checkDownload_books env s i
  by_cases hDownloading : (s.peer i).isDownloading = true
  · rw [checkDownloading_active env hDownloading]
    split
    · rename_i hLate
      have hSlot := congrFun (congrArg Books.slot hCheck) i
      have hStill :
          ((checkDownload env s i).1.peer i).isDownloading =
            true :=
        (congrArg Slot.downloading hSlot).trans hDownloading
      left
      refine ⟨⟨hDownloading, hLate⟩, ?_⟩
      rw [abortDownload_books hStill, hCheck]
    · right
      refine ⟨hCheck, ?_⟩
      simp [checkDownload]
  · right
    unfold checkDownloading
    rw [if_neg hDownloading]
    exact ⟨rfl, rfl⟩

/- The second test gives peer `i` up or does nothing. -/
theorem checkUploading_books
    (env : Env)
    (s : PeerServer)
    (i : Nat) :
    UploadTimedOut env s i ∧
        (checkUploading env s i).books = s.books.drop i ∨
      (checkUploading env s i).books = s.books := by
  have hCheck := checkUpload_books env s i
  by_cases hUploading : (s.peer i).isUploading = true
  · rw [checkUploading_active env hUploading]
    split
    · rename_i hLate
      have hSlot := congrFun (congrArg Books.slot hCheck) i
      have hStill :
          ((checkUpload env s i).1.peer i).isUploading =
            true :=
        (congrArg Slot.uploading hSlot).trans hUploading
      left
      refine ⟨⟨hUploading, hLate⟩, ?_⟩
      rw [abortUpload_books hStill, hCheck]
    · exact Or.inr hCheck
  · right
    unfold checkUploading
    rw [if_neg hUploading]

/-
  One turn of the loop leaves the books alone or gives the
  peer up, which it does only when one of its transfers has
  timed out.
-/
theorem checkPeer_books
    (env : Env)
    (s : PeerServer)
    (i : Nat) :
    (checkPeer env s i).books = s.books ∨
      TimedOut env s i ∧
        (checkPeer env s i).books = s.books.drop i := by
  unfold checkPeer
  by_cases hAlive : (s.peer i).isAlive = true
  · rw [if_pos hAlive]
    rcases checkDownloading_books env s i with
      ⟨hLate, hDrop⟩ | ⟨hSame, hUl⟩
    · -- A peer that was given up is not uploading any more.
      have hSlot := congrFun (congrArg Books.slot hDrop) i
      have hIdle :
          ((checkDownloading env s i).peer i).isUploading =
            false := by
        calc
          _ = ((s.books.drop i).slot i).uploading :=
            congrArg Slot.uploading hSlot
          _ = false := by simp [Books.drop]
      right
      refine ⟨⟨hAlive, Or.inl hLate⟩, ?_⟩
      unfold checkUploading
      rw [hIdle]
      exact hDrop
    · have hSlot := congrFun (congrArg Books.slot hSame) i
      have hFlag :
          ((checkDownloading env s i).peer i).isUploading =
            (s.peer i).isUploading :=
        congrArg Slot.uploading hSlot
      rcases checkUploading_books env
          (checkDownloading env s i) i with
        ⟨hLate, hDrop⟩ | hKept
      · have hUpload : UploadTimedOut env s i := by
          constructor
          · rw [← hFlag]
            exact hLate.uploading
          · rw [← hUl]
            exact hLate.late
        right
        refine ⟨⟨hAlive, Or.inr hUpload⟩, ?_⟩
        rw [hDrop, hSame]
      · exact Or.inl (hKept.trans hSame)
  · rw [if_neg hAlive]
    exact Or.inl rfl

theorem abortDownload_peer_of_ne
    (s : PeerServer)
    {i q : Nat}
    (hNe : q ≠ i) :
    (abortDownload s i).peer q = s.peer q := by
  simp only [abortDownload]
  split <;> simp [hNe]

theorem abortUpload_peer_of_ne
    (s : PeerServer)
    {i q : Nat}
    (hNe : q ≠ i) :
    (abortUpload s i).peer q = s.peer q := by
  simp only [abortUpload]
  split <;> simp [hNe]

/- The other peers are not touched. -/
theorem checkPeer_peer_of_ne
    (env : Env)
    (s : PeerServer)
    {i q : Nat}
    (hNe : q ≠ i) :
    (checkPeer env s i).peer q = s.peer q := by
  have hDownloading (s : PeerServer) :
      (checkDownloading env s i).peer q = s.peer q := by
    have hCheck :
        (checkDownload env s i).1.peer q = s.peer q := by
      simp [checkDownload, hNe]
    by_cases hActive : (s.peer i).isDownloading = true
    · rw [checkDownloading_active env hActive]
      split
      · rw [abortDownload_peer_of_ne _ hNe, hCheck]
      · exact hCheck
    · exact congrArg (fun s => peer s q) (if_neg hActive)
  have hUploading (s : PeerServer) :
      (checkUploading env s i).peer q = s.peer q := by
    have hCheck :
        (checkUpload env s i).1.peer q = s.peer q := by
      simp [checkUpload, hNe]
    by_cases hActive : (s.peer i).isUploading = true
    · rw [checkUploading_active env hActive]
      split
      · rw [abortUpload_peer_of_ne _ hNe, hCheck]
      · exact hCheck
    · exact congrArg (fun s => peer s q) (if_neg hActive)
  unfold checkPeer
  split
  · rw [hUploading, hDownloading]
  · rfl

theorem TimedOut.congr
    {env : Env}
    {s s' : PeerServer}
    {p : Nat}
    (hPeer : s'.peer p = s.peer p)
    (hLate : TimedOut env s' p) :
    TimedOut env s p := by
  refine ⟨hPeer ▸ hLate.alive, ?_⟩
  rcases hLate.late with hDownload | hUpload
  · exact Or.inl
      ⟨hPeer ▸ hDownload.downloading, hPeer ▸ hDownload.late⟩
  · exact Or.inr
      ⟨hPeer ▸ hUpload.uploading, hPeer ▸ hUpload.late⟩

/-
  The loop from peer `i` on, started in `s`: the peers it has
  not come to are as they were.
-/
theorem checkLoop_keeps
    {inv : Books → Prop}
    (env : Env)
    {s : PeerServer}
    (hDrop :
      ∀ b p, b.count = s.books.count → p < b.count →
        b.slot p = s.books.slot p → TimedOut env s p →
        inv b → inv (b.drop p))
    (k i : Nat)
    {s' : PeerServer}
    (hCount : s'.peerlist.count = s.peerlist.count)
    (hEnd : i + k = s.peerlist.count)
    (hPeers : ∀ q, i ≤ q → s'.peer q = s.peer q)
    (hInv : inv s'.books) :
    inv (checkLoop env k i s').books := by
  induction k generalizing i s' with
  | zero => exact hInv
  | succ k ih =>
      have hRest :
          ∀ q, i + 1 ≤ q →
            (checkPeer env s' i).peer q = s.peer q := by
        intro q hq
        rw [checkPeer_peer_of_ne env s' (by omega)]
        exact hPeers q (by omega)
      have hHere := hPeers i (Nat.le_refl i)
      simp only [checkLoop]
      rcases checkPeer_books env s' i with
        hSame | ⟨hLate, hGone⟩
      · apply ih (i + 1) _ (by omega) hRest
        · rw [hSame]
          exact hInv
        · exact (congrArg Books.count hSame).trans hCount
      · apply ih (i + 1) _ (by omega) hRest
        · have hPeer : i < s'.peerlist.count := by omega
          rw [hGone]
          apply hDrop s'.books i hCount hPeer
          · exact congrArg Peer.slot hHere
          · exact hLate.congr hHere
          · exact hInv
        · calc
            _ = (s'.books.drop i).count :=
              congrArg Books.count hGone
            _ = s'.peerlist.count := by
              unfold Books.drop Books.killDownload
              dsimp only
              split <;> rfl
            _ = _ := hCount

/-
  What the actions keep is kept by the timeout check, when
  giving up a peer keeps it.
-/
theorem timeout_keeps
    {inv : Books → Prop}
    (hKeeps : Books.Keeps inv)
    (sha1 : List Byte → Nat → Byte)
    (env : Env)
    {s : PeerServer}
    (hDrop :
      ∀ b p, b.count = s.books.count → p < b.count →
        b.slot p = s.books.slot p → TimedOut env s p →
        inv b → inv (b.drop p))
    (hInv : inv s.books) :
    inv (s.step sha1 (.timeout env)).books := by
  have hLoop :=
    checkLoop_keeps env hDrop s.peerlist.count 0 rfl
      (Nat.zero_add _) (fun _ _ => rfl) hInv
  simp only [PeerServer.step, checkAllTimeout]
  split
  · exact refreshChunkDownload_keeps hKeeps env hLoop
  · exact hLoop

end BtPeer

------------------------------------------------------------
-- Commands
------------------------------------------------------------

namespace BtPeer

open PeerServer

/- A GET command whose two file names fit. -/
def Named
    (chunkfile outputfile : CString) : Prop :=
  outputfile.length < btFilenameLen ∧
    chunkfile.length < btFilenameLen

instance
    (chunkfile outputfile : CString) :
    Decidable (Named chunkfile outputfile) :=
  inferInstanceAs (Decidable (_ ∧ _))

/- A GET command with a name that does not fit is ignored. -/
theorem command_unnamed
    (sha1 : List Byte → Nat → Byte)
    (env : Env)
    (s : PeerServer)
    {chunkfile outputfile : CString}
    (text : Option (List Char))
    (hLong : ¬ Named chunkfile outputfile) :
    s.step sha1 (.command env chunkfile outputfile text) =
      s := by
  simp only [PeerServer.step, processGet]
  split
  · rfl
  · split
    · rfl
    · exact absurd
        ⟨Nat.not_le.mp ‹_›, Nat.not_le.mp ‹_›⟩ hLong

/-
  A GET command names its files, and brings a new list unless
  the chunk file cannot be read.
-/
theorem command_books
    (sha1 : List Byte → Nat → Byte)
    (env : Env)
    (s : PeerServer)
    {chunkfile outputfile : CString}
    (text : Option (List Char))
    (hNamed : Named chunkfile outputfile) :
    (s.step sha1
        (.command env chunkfile outputfile text)).books =
      match parseChunk s.getchunks text with
      | none => s.books.rename outputfile chunkfile
      | some getchunks =>
          (s.books.rename outputfile chunkfile).accept
            getchunks := by
  have hOutput : ¬ btFilenameLen ≤ outputfile.length :=
    Nat.not_le.mpr hNamed.1
  have hChunk : ¬ btFilenameLen ≤ chunkfile.length :=
    Nat.not_le.mpr hNamed.2
  simp only [PeerServer.step, processGet, if_neg hOutput,
    if_neg hChunk]
  cases parseChunk s.getchunks text with
  | none => rfl
  | some getchunks => rfl

/-
  What a GET command must keep: the files may be renamed, and
  a list may be accepted.
-/
theorem command_keeps
    {inv : Books → Prop}
    (sha1 : List Byte → Nat → Byte)
    (env : Env)
    {s : PeerServer}
    {chunkfile outputfile : CString}
    {text : Option (List Char)}
    (hRename :
      Named chunkfile outputfile →
      parseChunk s.getchunks text = none →
      inv (s.books.rename outputfile chunkfile))
    (hAccept :
      Named chunkfile outputfile →
      ∀ getchunks,
        parseChunk s.getchunks text = some getchunks →
        inv
          ((s.books.rename outputfile chunkfile).accept
            getchunks))
    (hInv : inv s.books) :
    inv
      (s.step sha1
        (.command env chunkfile outputfile text)).books := by
  by_cases hNamed : Named chunkfile outputfile
  · rw [command_books sha1 env s text hNamed]
    cases hParse : parseChunk s.getchunks text with
    | none => exact hRename hNamed hParse
    | some getchunks =>
        exact hAccept hNamed getchunks hParse
  · rw [command_unnamed sha1 env s text hNamed]
    exact hInv

end BtPeer
