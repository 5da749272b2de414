import BtPeer.Server.ParsePacket
import BtPeer.Library.Count
import BtPeer.Library.Run

/-
  The books of the server: who is connected, who transfers
  what, which chunks are fetched and what is in the files.

  Packets in flight, windows and timers are left out. An
  entry of the books is one of a few actions; the server
  makes no others.

  Key definitions include:
    * `Slot`
    * `Books`
    * `Books.beginDownload`
    * `Books.finishDownload`
    * `Books.drop`
    * `Books.load`
    * `PeerServer.books`
-/

------------------------------------------------------------
-- The Books
------------------------------------------------------------

namespace BtPeer

/- What the books say about one peer. -/
structure Slot where
  alive : Bool
  downloading : Bool
  uploading : Bool
  getIndex : Nat
  filename : CString
  mapped : Bool

/- A finished download that is written to a file. -/
structure Write where
  position : Nat
  buffer : Nat → Byte
  length : Nat

@[ext] structure Books where
  count : Nat
  slot : Nat → Slot
  getchunks : ChunkList
  maxConn : Int
  dlNum : Int
  ulNum : Int
  dlRemain : Int
  dlFilename : CString
  getchunkFile : CString
  got : List CString
  files : CString → ByteMemory.SparseFile Byte

namespace Books

def setSlot
    (b : Books)
    (p : Nat)
    (sl : Slot) : Books :=
  { b with slot := Function.update b.slot p sl }

def setState
    (b : Books)
    (i : Nat)
    (st : ChunkState) : Books :=
  { b with getchunks := b.getchunks.setState i st }

@[simp] theorem setSlot_slot
    (b : Books)
    (p q : Nat)
    (sl : Slot) :
    (b.setSlot p sl).slot q = if q = p then sl else b.slot q := by
  by_cases hEq : q = p
  · subst hEq
    simp [setSlot]
  · simp [setSlot, hEq]

@[simp] theorem setSlot_setSlot
    (b : Books)
    (p : Nat)
    (sl sl' : Slot) :
    (b.setSlot p sl).setSlot p sl' = b.setSlot p sl' := by
  simp [setSlot]

theorem setSlot_eq_self
    {b : Books}
    {p : Nat}
    {sl : Slot}
    (hSame : sl = b.slot p) :
    b.setSlot p sl = b := by
  simp [setSlot, hSame]

end Books

end BtPeer

------------------------------------------------------------
-- Actions
------------------------------------------------------------

namespace BtPeer

namespace Books

/- A peer is heard of. -/
def raise
    (b : Books)
    (p : Nat) : Books :=
  b.setSlot p { b.slot p with alive := true }

/- Chunk `i` is asked for at peer `p`. -/
def beginDownload
    (b : Books)
    (p i : Nat) : Books :=
  { (b.setSlot p
      { b.slot p with
        downloading := true
        getIndex := i
        filename := b.dlFilename }).setState i .fetching with
    dlNum := b.dlNum + 1 }

/- When a download may begin. -/
structure CanBegin
    (b : Books)
    (p i : Nat) : Prop where
  peer : p < b.count
  alive : (b.slot p).alive = true
  free : (b.slot p).downloading = false
  room : b.dlNum < b.maxConn
  index : i < b.getchunks.count
  unfetched : (b.getchunks.chunks i).state = .unfetched

/- The chunk of peer `p` is fetched. -/
def markFetched
    (b : Books)
    (p : Nat) : Books :=
  { b.setState (b.slot p).getIndex .fetched with
    dlRemain := b.dlRemain - 1
    got :=
      if b.dlRemain - 1 = 0 then b.got ++ [b.getchunkFile]
      else b.got }

/- Write to the file that peer `p` downloads into. -/
def writeFile
    (b : Books)
    (p : Nat)
    (w : Write) : Books :=
  { b with
    files :=
      Function.update b.files (b.slot p).filename
        (ByteMemory.pwrite 0 (b.files (b.slot p).filename)
          w.position w.buffer w.length) }

/- Save the chunk of peer `p`, none for nothing to save. -/
def save
    (b : Books)
    (p : Nat) : Option Write → Books
| none => b
| some w =>
    if btChunkSize ≤ w.length then
      (b.writeFile p w).markFetched p
    else b.writeFile p w

/- A chunk that was not fetched is free again. -/
def release
    (b : Books)
    (i : Nat) : Books :=
  if (b.getchunks.chunks i).state ≠ .fetched then
    b.setState i .unfetched
  else b

/- Peer `p` is not downloading any more. -/
def endDownload
    (b : Books)
    (p : Nat) : Books :=
  { b.setSlot p { b.slot p with downloading := false } with
    dlNum := b.dlNum - 1 }

/- The download of peer `p` comes to its end. -/
def finishDownload
    (b : Books)
    (p : Nat)
    (w : Option Write) : Books :=
  ((b.endDownload p).save p w).release (b.slot p).getIndex

/- The download of peer `p` is given up. -/
def killDownload
    (b : Books)
    (p : Nat) : Books :=
  if (b.slot p).downloading then
    { b.setState (b.slot p).getIndex .unfetched with
      dlNum := b.dlNum - 1 }
  else b

/- Peer `p` is given up. -/
def drop
    (b : Books)
    (p : Nat) : Books :=
  let b' := b.killDownload p
  { b'.setSlot p
      { b.slot p with
        alive := false
        downloading := false
        uploading := false
        mapped :=
          (b.slot p).mapped && ! (b.slot p).uploading } with
    ulNum :=
      if (b.slot p).uploading then b.ulNum - 1 else b.ulNum }

/- An upload to peer `p` is started, or started again. -/
def load
    (b : Books)
    (p : Nat)
    (mapped started : Bool) : Books :=
  let ulNum :=
    if (b.slot p).uploading then b.ulNum - 1 else b.ulNum
  { b.setSlot p
      { b.slot p with
        uploading := true
        mapped := mapped } with
    ulNum := if started then ulNum + 1 else ulNum }

/- The upload to peer `p` comes to its end. -/
def unload
    (b : Books)
    (p : Nat) : Books :=
  { b.setSlot p
      { b.slot p with
        uploading := false
        mapped := false } with
    ulNum := b.ulNum - 1 }

/- A GET command names its files. -/
def rename
    (b : Books)
    (outputfile chunkfile : CString) : Books :=
  { b with
    dlFilename := outputfile
    getchunkFile := chunkfile }

/- A GET command brings a list of chunks. -/
def accept
    (b : Books)
    (getchunks : ChunkList) : Books :=
  { b with
    getchunks := getchunks
    dlRemain := getchunks.count }

end Books

end BtPeer

------------------------------------------------------------
-- What Actions Leave Alone
------------------------------------------------------------

namespace BtPeer

namespace Books

/- Everything that is about connections is the same. -/
structure SameConnections (b b' : Books) : Prop where
  count : b'.count = b.count
  slot : b'.slot = b.slot
  maxConn : b'.maxConn = b.maxConn
  dlNum : b'.dlNum = b.dlNum
  ulNum : b'.ulNum = b.ulNum

/- Everything that is about downloads is the same. -/
structure SameDownloads (b b' : Books) : Prop where
  count : b'.count = b.count
  downloading :
    ∀ p, (b'.slot p).downloading = (b.slot p).downloading
  getIndex : ∀ p, (b'.slot p).getIndex = (b.slot p).getIndex
  filename : ∀ p, (b'.slot p).filename = (b.slot p).filename
  getchunks : b'.getchunks = b.getchunks
  dlNum : b'.dlNum = b.dlNum
  dlRemain : b'.dlRemain = b.dlRemain
  dlFilename : b'.dlFilename = b.dlFilename
  getchunkFile : b'.getchunkFile = b.getchunkFile
  got : b'.got = b.got
  files : b'.files = b.files

theorem save_sameConnections
    (b : Books)
    (p : Nat)
    (w : Option Write) :
    SameConnections b (b.save p w) := by
  cases w with
  | none => exact ⟨rfl, rfl, rfl, rfl, rfl⟩
  | some w =>
      simp only [save]
      split <;> exact ⟨rfl, rfl, rfl, rfl, rfl⟩

theorem release_sameConnections
    (b : Books)
    (i : Nat) :
    SameConnections b (b.release i) := by
  unfold release
  split <;> exact ⟨rfl, rfl, rfl, rfl, rfl⟩

theorem SameConnections.trans
    {b b' b'' : Books}
    (h : SameConnections b b')
    (h' : SameConnections b' b'') :
    SameConnections b b'' where
  count := h'.count.trans h.count
  slot := h'.slot.trans h.slot
  maxConn := h'.maxConn.trans h.maxConn
  dlNum := h'.dlNum.trans h.dlNum
  ulNum := h'.ulNum.trans h.ulNum

/- Of the connections, only the download itself ends. -/
theorem finishDownload_connections
    (b : Books)
    (p : Nat)
    (w : Option Write) :
    SameConnections (b.endDownload p)
      (b.finishDownload p w) :=
  (save_sameConnections _ p w).trans
    (release_sameConnections _ _)

@[simp] theorem finishDownload_slot
    (b : Books)
    (p q : Nat)
    (w : Option Write) :
    (b.finishDownload p w).slot q =
      if q = p then
        { b.slot p with downloading := false }
      else b.slot q := by
  rw [(finishDownload_connections b p w).slot]
  exact setSlot_slot b p q _

theorem sameDownloads_setSlot
    {b : Books}
    {p : Nat}
    {sl : Slot}
    (hDownloading :
      sl.downloading = (b.slot p).downloading)
    (hIndex : sl.getIndex = (b.slot p).getIndex)
    (hFilename : sl.filename = (b.slot p).filename) :
    SameDownloads b (b.setSlot p sl) := by
  constructor
  case downloading =>
    intro q
    rw [setSlot_slot]
    split
    · rename_i hEq
      rw [hDownloading, hEq]
    · rfl
  case getIndex =>
    intro q
    rw [setSlot_slot]
    split
    · rename_i hEq
      rw [hIndex, hEq]
    · rfl
  case filename =>
    intro q
    rw [setSlot_slot]
    split
    · rename_i hEq
      rw [hFilename, hEq]
    · rfl
  all_goals rfl

/- The number of uploads is not about downloads. -/
theorem SameDownloads.setUlNum
    {b b' : Books}
    (h : SameDownloads b b')
    (n : Int) :
    SameDownloads b { b' with ulNum := n } where
  count := h.count
  downloading := h.downloading
  getIndex := h.getIndex
  filename := h.filename
  getchunks := h.getchunks
  dlNum := h.dlNum
  dlRemain := h.dlRemain
  dlFilename := h.dlFilename
  getchunkFile := h.getchunkFile
  got := h.got
  files := h.files

theorem raise_sameDownloads
    (b : Books)
    (p : Nat) :
    SameDownloads b (b.raise p) :=
  sameDownloads_setSlot rfl rfl rfl

theorem load_sameDownloads
    (b : Books)
    (p : Nat)
    (mapped started : Bool) :
    SameDownloads b (b.load p mapped started) := by
  apply SameDownloads.setUlNum
  exact sameDownloads_setSlot rfl rfl rfl

theorem unload_sameDownloads
    (b : Books)
    (p : Nat) :
    SameDownloads b (b.unload p) := by
  apply SameDownloads.setUlNum
  exact sameDownloads_setSlot rfl rfl rfl

end Books

end BtPeer

------------------------------------------------------------
-- Giving Up A Peer
------------------------------------------------------------

namespace BtPeer

namespace Books

@[simp] theorem drop_count
    (b : Books)
    (p : Nat) :
    (b.drop p).count = b.count := by
  unfold drop killDownload
  dsimp only
  split <;> rfl

@[simp] theorem drop_maxConn
    (b : Books)
    (p : Nat) :
    (b.drop p).maxConn = b.maxConn := by
  unfold drop killDownload
  dsimp only
  split <;> rfl

theorem drop_dlNum
    (b : Books)
    (p : Nat) :
    (b.drop p).dlNum =
      b.dlNum - (if (b.slot p).downloading then 1 else 0) := by
  unfold drop killDownload
  dsimp only
  split
  · rfl
  · exact (Int.sub_zero b.dlNum).symm

theorem drop_ulNum
    (b : Books)
    (p : Nat) :
    (b.drop p).ulNum =
      b.ulNum - (if (b.slot p).uploading then 1 else 0) := by
  unfold drop
  dsimp only
  split
  · rfl
  · exact (Int.sub_zero b.ulNum).symm

theorem drop_slot_self
    (b : Books)
    (p : Nat) :
    (b.drop p).slot p =
      { b.slot p with
        alive := false
        downloading := false
        uploading := false
        mapped :=
          (b.slot p).mapped && ! (b.slot p).uploading } := by
  simp [drop]

theorem drop_slot_of_ne
    (b : Books)
    {p q : Nat}
    (hNe : q ≠ p) :
    (b.drop p).slot q = b.slot q := by
  simp only [drop, setSlot_slot, if_neg hNe, killDownload]
  split <;> rfl

/- Giving up a peer that is not downloading. -/
theorem drop_sameDownloads
    {b : Books}
    {p : Nat}
    (hIdle : ¬ (b.slot p).downloading = true) :
    SameDownloads b (b.drop p) := by
  have hKill : b.killDownload p = b := if_neg hIdle
  unfold drop
  rw [hKill]
  apply SameDownloads.setUlNum
  refine sameDownloads_setSlot ?_ rfl rfl
  exact (Bool.eq_false_of_not_eq_true hIdle).symm

end Books

end BtPeer

------------------------------------------------------------
-- Chunk States
------------------------------------------------------------

namespace BtPeer

/- Whether the whole chunk is written. -/
def fullWrite : Option Write → Bool
| none => false
| some w => decide (btChunkSize ≤ w.length)

theorem fullWrite_chunk
    (position : Nat)
    (buffer : Nat → Byte) :
    fullWrite (some ⟨position, buffer, btChunkSize⟩) = true :=
  decide_eq_true (Nat.le_refl btChunkSize)

namespace Books

variable (b : Books)
variable (p k : Nat)

/- The state of the chunk at index `k`. -/
def state : ChunkState :=
  (b.getchunks.chunks k).state

@[simp] theorem setState_state
    (i : Nat)
    (st : ChunkState) :
    (b.setState i st).state k =
      if k = i then st else b.state k :=
  ChunkList.setState_state b.getchunks i k st

theorem SameDownloads.state
    {b b' : Books}
    (hSame : SameDownloads b b')
    (k : Nat) :
    b'.state k = b.state k := by
  unfold Books.state
  rw [hSame.getchunks]

theorem beginDownload_slot
    (b : Books)
    (p q i : Nat) :
    (b.beginDownload p i).slot q =
      if q = p then
        { b.slot p with
          downloading := true
          getIndex := i
          filename := b.dlFilename }
      else b.slot q :=
  setSlot_slot b p q _

theorem beginDownload_state
    (i : Nat) :
    (b.beginDownload p i).state k =
      if k = i then .fetching else b.state k :=
  setState_state _ k i .fetching

theorem save_state
    (w : Option Write) :
    (b.save p w).state k =
      if fullWrite w ∧ k = (b.slot p).getIndex then .fetched
      else b.state k := by
  cases w with
  | none =>
      rw [if_neg (fun hBoth => absurd hBoth.1 (by decide))]
      rfl
  | some w =>
      by_cases hFull : btChunkSize ≤ w.length
      · have hSaves : fullWrite (some w) = true :=
          decide_eq_true hFull
        simp only [save, if_pos hFull, hSaves, true_and]
        exact setState_state _ k (b.slot p).getIndex .fetched
      · have hSaves : ¬ fullWrite (some w) = true := by
          simpa only [fullWrite, decide_eq_true_eq] using hFull
        simp only [save, if_neg hFull, hSaves]
        rfl

theorem release_state
    (i : Nat) :
    (b.release i).state k =
      if k = i ∧ b.state i ≠ .fetched then .unfetched
      else b.state k := by
  unfold release
  by_cases hState : (b.getchunks.chunks i).state ≠ .fetched
  · rw [if_pos hState, setState_state]
    have hAt : b.state i ≠ .fetched := hState
    simp only [hAt, ne_eq, not_false_eq_true, and_true]
  · have hAt : ¬ b.state i ≠ .fetched := hState
    rw [if_neg hState, if_neg (fun hBoth => hAt hBoth.2)]

theorem finishDownload_state_self
    (w : Option Write) :
    (b.finishDownload p w).state (b.slot p).getIndex =
      if fullWrite w ∨
          b.state (b.slot p).getIndex = .fetched then
        .fetched
      else .unfetched := by
  have hIndex :
      ((b.endDownload p).slot p).getIndex =
        (b.slot p).getIndex := by
    simp [endDownload]
  have hSave :=
    save_state (b.endDownload p) p (b.slot p).getIndex w
  rw [hIndex] at hSave
  unfold finishDownload
  rw [release_state, hSave]
  change _ =
    if fullWrite w ∨
        (b.endDownload p).state (b.slot p).getIndex =
          .fetched then
      ChunkState.fetched
    else .unfetched
  by_cases hFull : fullWrite w = true
  · simp [hFull]
  · by_cases hOld :
        (b.endDownload p).state (b.slot p).getIndex = .fetched
    · simp [hFull, hOld]
    · simp [hFull, hOld]

theorem finishDownload_state_of_ne
    {b : Books}
    {p k : Nat}
    (w : Option Write)
    (hNe : k ≠ (b.slot p).getIndex) :
    (b.finishDownload p w).state k = b.state k := by
  have hIndex :
      ((b.endDownload p).slot p).getIndex =
        (b.slot p).getIndex := by
    simp [endDownload]
  unfold finishDownload
  rw [release_state, if_neg (fun hBoth => hNe hBoth.1),
    save_state, hIndex, if_neg (fun hBoth => hNe hBoth.2)]
  rfl

theorem finishDownload_dlRemain
    (w : Option Write) :
    (b.finishDownload p w).dlRemain =
      if fullWrite w then b.dlRemain - 1 else b.dlRemain := by
  have hSave :
      ((b.endDownload p).save p w).dlRemain =
        if fullWrite w then b.dlRemain - 1
        else b.dlRemain := by
    cases w with
    | none => rfl
    | some w =>
        simp only [save, fullWrite, decide_eq_true_eq]
        split <;> rfl
  unfold finishDownload release
  split <;> exact hSave

theorem finishDownload_got
    (w : Option Write) :
    (b.finishDownload p w).got =
      if fullWrite w ∧ b.dlRemain - 1 = 0 then
        b.got ++ [b.getchunkFile]
      else b.got := by
  have hSave :
      ((b.endDownload p).save p w).got =
        if fullWrite w ∧ b.dlRemain - 1 = 0 then
          b.got ++ [b.getchunkFile]
        else b.got := by
    cases w with
    | none => simp [save, fullWrite, endDownload, setSlot]
    | some w =>
        by_cases hFull : btChunkSize ≤ w.length
        · simp only [save, fullWrite, if_pos hFull,
            decide_eq_true hFull, true_and]
          rfl
        · simp only [save, fullWrite, if_neg hFull,
            decide_eq_false hFull, Bool.false_eq_true,
            false_and, if_false]
          rfl
  unfold finishDownload release
  split <;> exact hSave

theorem drop_state :
    (b.drop p).state k =
      if (b.slot p).downloading ∧
          k = (b.slot p).getIndex then
        .unfetched
      else b.state k := by
  change (b.killDownload p).state k = _
  unfold killDownload
  by_cases hDownloading : (b.slot p).downloading = true
  · simp only [hDownloading, true_and]
    exact setState_state b k (b.slot p).getIndex .unfetched
  · simp only [hDownloading]
    rfl

/- The length of the list of chunks stays as it is. -/
@[simp] theorem finishDownload_getchunks_count
    (w : Option Write) :
    (b.finishDownload p w).getchunks.count =
      b.getchunks.count := by
  have hSave :
      ((b.endDownload p).save p w).getchunks.count =
        b.getchunks.count := by
    cases w with
    | none => rfl
    | some w =>
        simp only [save]
        split <;> rfl
  unfold finishDownload release
  split
  · exact hSave
  · exact hSave

@[simp] theorem drop_getchunks_count :
    (b.drop p).getchunks.count = b.getchunks.count := by
  change (b.killDownload p).getchunks.count = _
  unfold killDownload
  split <;> rfl

end Books

end BtPeer

------------------------------------------------------------
-- The Books Of A Server
------------------------------------------------------------

namespace BtPeer

def Peer.slot (pr : Peer) : Slot where
  alive := pr.isAlive
  downloading := pr.isDownloading
  uploading := pr.isUploading
  getIndex := pr.dl.getIndex
  filename := pr.dl.filename
  mapped := pr.ul.data.isSome

namespace PeerServer

def books (s : PeerServer) : Books where
  count := s.peerlist.count
  slot := fun p => (s.peer p).slot
  getchunks := s.getchunks
  maxConn := s.maxConn
  dlNum := s.dlNum
  ulNum := s.ulNum
  dlRemain := s.dlRemain
  dlFilename := s.dlFilename
  getchunkFile := s.getchunkFile
  got := s.got
  files := s.files

@[simp] theorem books_setPeer
    (s : PeerServer)
    (p : Nat)
    (pr : Peer) :
    (s.setPeer p pr).books = s.books.setSlot p pr.slot := by
  have hSlots :
      (fun q => ((s.setPeer p pr).peer q).slot) =
        Function.update (fun q => (s.peer q).slot) p
          pr.slot := by
    funext q
    by_cases hEq : q = p
    · subst hEq
      simp
    · simp [hEq]
  simp only [books, Books.setSlot, hSlots]
  rfl

@[simp] theorem books_setState
    (s : PeerServer)
    (i : Nat)
    (st : ChunkState) :
    (s.setState i st).books = s.books.setState i st := rfl

@[simp] theorem books_send
    (s : PeerServer)
    (env : Env)
    (pp : PktParam) :
    (s.send env pp).books = s.books := rfl

@[simp] theorem books_sendAll
    (s : PeerServer)
    (env : Env)
    (pps : List PktParam) :
    (s.sendAll env pps).books = s.books := rfl

@[simp] theorem books_slot
    (s : PeerServer)
    (p : Nat) :
    s.books.slot p = (s.peer p).slot := rfl

@[simp] theorem setState_peer
    (s : PeerServer)
    (i p : Nat)
    (st : ChunkState) :
    (s.setState i st).peer p = s.peer p := rfl

@[simp] theorem send_peer
    (s : PeerServer)
    (env : Env)
    (pp : PktParam)
    (p : Nat) :
    (s.send env pp).peer p = s.peer p := rfl

@[simp] theorem sendAll_peer
    (s : PeerServer)
    (env : Env)
    (pps : List PktParam)
    (p : Nat) :
    (s.sendAll env pps).peer p = s.peer p := rfl

end PeerServer

end BtPeer
