import BtPeer.Library.Run
import BtPeer.Transfer.Receiver

/-
  The two ends of a transfer and the network between them:
  the part of `parse_packet` and `check_all_timeout` that one
  uploader and one downloader run against each other.

  The network is the log of everything sent. An event may
  deliver any packet of the log, at any time and any number
  of times, so packets are lost, duplicated, reordered and
  delayed at will. What the rest of the two servers decides
  is part of the event. Mapping the chunk is taken to
  succeed.

  Downloads are numbered from 1 in the order they start. The
  number of the download that a packet or an upload belongs
  to is recorded next to it; no handler reads it.

  Key definitions include:
    * `Link`
    * `LinkEvent`
    * `Link.step`
-/

------------------------------------------------------------
-- State And Events
------------------------------------------------------------

namespace BtPeer

structure Link where
  uploading : Bool
  ul : Upload
  ulTransfer : Nat
  downloading : Bool
  dl : Download
  gets : List Nat
  datas : List (Nat × Packet)
  acks : List (Nat × Packet)

namespace Link

/- The number of the last download, 0 for none. -/
def dlTransfer (s : Link) : Nat :=
  s.gets.length

/- Nothing started, and nothing sent. -/
def idle (ul : Upload) : Link where
  uploading := false
  ul := ul
  ulTransfer := 0
  downloading := false
  dl := Download.zero
  gets := []
  datas := []
  acks := []

end Link

/-
  `start`, `data` and `dlTimeout` happen at the downloader,
  `get`, `ack` and `ulTimeout` at the uploader. `dlEnd` and
  `ulEnd` are the `die` of the other side's peer entry for
  another reason. `admitted` says whether a GET passed the
  tests in front of `start_upload`.
-/
inductive LinkEvent where
  | start
      (getIndex pIndex : Nat)
      (filename : CString)
      (now : Word)
  | get
      (n : Nat)
      (admitted : Bool)
      (pIndex hasIndex : Nat)
      (ts : Word → Word)
      (stack : Nat → Byte)
  | data
      (n : Nat)
      (now ts : Word)
      (stack : Nat → Byte)
  | ack
      (n : Nat)
      (now : Word)
      (ts : Word → Word)
      (stack : Nat → Byte)
  | dlTimeout
      (now ts : Word)
      (stack : Nat → Byte)
  | ulTimeout
      (now : Word)
      (ts : Word → Word)
      (stack : Nat → Byte)
  | dlEnd
  | ulEnd

end BtPeer

------------------------------------------------------------
-- Handlers
------------------------------------------------------------

namespace BtPeer

namespace Link

/- Put the uploader's packets on the network. -/
def sendData
    (s : Link)
    (stack : Nat → Byte)
    (sent : List PktParam) : Link :=
  { s with
    datas :=
      s.datas ++
        (emit stack sent).map (fun pkt => (s.ulTransfer, pkt)) }

/- Put the downloader's packets on the network. -/
def sendAck
    (s : Link)
    (stack : Nat → Byte)
    (sent : List PktParam) : Link :=
  { s with
    acks :=
      s.acks ++
        (emit stack sent).map (fun pkt => (s.dlTransfer, pkt)) }

/- `try_send_get` once it found the chunk `getIndex`. -/
def onStart
    (s : Link)
    (getIndex pIndex : Nat)
    (filename : CString)
    (now : Word) : Link :=
  if s.downloading then s
  else
    { s with
      gets := s.gets ++ [getIndex]
      downloading := true
      dl := dlInit now pIndex getIndex filename }

/-
  The GET branch of `parse_packet` behind its tests: an
  upload that is running is dropped.
-/
def onGet
    (s : Link)
    (content : Nat → Byte)
    (transfer pIndex hasIndex : Nat)
    (ts : Word → Word)
    (stack : Nat → Byte) : Link :=
  match
    ulSend ts (ulInit pIndex hasIndex (some content)).1
  with
  | (ul, sent, _) =>
      sendData
        { s with
          uploading := true
          ul := ul
          ulTransfer := transfer }
        stack sent

/- The DATA branch of `parse_packet`. -/
def onData
    (s : Link)
    (pkt : Packet)
    (now ts : Word)
    (stack : Nat → Byte) : Link :=
  if s.downloading then
    match dlRecv now ts s.dl pkt with
    | (dl, sent, _) =>
        sendAck
          { s with dl := dl, downloading := ! dl.finished }
          stack sent
  else s

/- The ACK branch of `parse_packet`. -/
def onAck
    (s : Link)
    (pkt : Packet)
    (now : Word)
    (ts : Word → Word)
    (stack : Nat → Byte) : Link :=
  if s.uploading then
    match ulSend ts (ulHandleAck now s.ul pkt.ack) with
    | (ul, sent, _) =>
        sendData
          { s with
            ul := if ul.finished then ulDeinit ul else ul
            uploading := ! ul.finished }
          stack sent
  else s

/- The download half of `check_all_timeout`. -/
def onDlTimeout
    (s : Link)
    (now ts : Word)
    (stack : Nat → Byte) : Link :=
  if s.downloading then
    match dlCheckTimeout now ts s.dl with
    | (dl, sent, cnt) =>
        sendAck
          { s with
            dl := dl
            downloading := ! decide (maxTimeoutCnt < cnt) }
          stack sent
  else s

/- The upload half of `check_all_timeout`. -/
def onUlTimeout
    (s : Link)
    (now : Word)
    (ts : Word → Word)
    (stack : Nat → Byte) : Link :=
  if s.uploading then
    match ulCheckTimeout now ts s.ul with
    | (ul, sent, cnt) =>
        sendData
          { s with
            ul :=
              if maxTimeoutCnt < cnt then ulDeinit ul else ul
            uploading := ! decide (maxTimeoutCnt < cnt) }
          stack sent
  else s

/-
  One event. `chunk i` is the chunk with index `i` in the
  downloader's list, as the uploader has it.
-/
def step
    (chunk : Nat → Nat → Byte)
    (s : Link) : LinkEvent → Link
| .start getIndex pIndex filename now =>
    s.onStart getIndex pIndex filename now
| .get n admitted pIndex hasIndex ts stack =>
    match s.gets[n]?, admitted with
    | some getIndex, true =>
        s.onGet (chunk getIndex) (n + 1) pIndex hasIndex ts
          stack
    | _, _ => s
| .data n now ts stack =>
    match s.datas[n]? with
    | some (_, pkt) => s.onData pkt now ts stack
    | none => s
| .ack n now ts stack =>
    match s.acks[n]? with
    | some (_, pkt) => s.onAck pkt now ts stack
    | none => s
| .dlTimeout now ts stack => s.onDlTimeout now ts stack
| .ulTimeout now ts stack => s.onUlTimeout now ts stack
| .dlEnd => { s with downloading := false }
| .ulEnd =>
    { s with uploading := false, ul := ulDeinit s.ul }

/- The upload kept after an ACK. -/
theorem onAck_kept
    (ul : Upload) :
    (if ul.finished then ulDeinit ul else ul) = ul ∨
      ((! ul.finished) = false ∧
        (if ul.finished then ulDeinit ul else ul) =
          ulDeinit ul) := by
  by_cases hDone : ul.finished = true
  · exact Or.inr ⟨congrArg (! ·) hDone, if_pos hDone⟩
  · exact Or.inl (if_neg hDone)

/- The upload kept after a timeout check. -/
theorem onUlTimeout_kept
    (ul : Upload)
    (cnt : Int) :
    (if maxTimeoutCnt < cnt then ulDeinit ul else ul) = ul ∨
      ((! decide (maxTimeoutCnt < cnt)) = false ∧
        (if maxTimeoutCnt < cnt then ulDeinit ul else ul) =
          ulDeinit ul) := by
  by_cases hLate : maxTimeoutCnt < cnt
  · exact Or.inr
      ⟨congrArg (! ·) (decide_eq_true hLate), if_pos hLate⟩
  · exact Or.inl (if_neg hLate)

/- Only a new download adds to the log of GETs. -/
theorem step_gets
    (chunk : Nat → Nat → Byte)
    (s : Link)
    {e : LinkEvent}
    (hNoStart :
      ∀ getIndex pIndex filename now,
        e ≠ .start getIndex pIndex filename now) :
    (s.step chunk e).gets = s.gets := by
  cases e with
  | start getIndex pIndex filename now =>
      exact absurd rfl
        (hNoStart getIndex pIndex filename now)
  | get n admitted pIndex hasIndex ts stack =>
      simp only [step]
      split <;> rfl
  | data n now ts stack =>
      simp only [step]
      split
      · unfold onData
        split <;> rfl
      · rfl
  | ack n now ts stack =>
      simp only [step]
      split
      · unfold onAck
        split <;> rfl
      · rfl
  | dlTimeout now ts stack =>
      simp only [step, onDlTimeout]
      split <;> rfl
  | ulTimeout now ts stack =>
      simp only [step, onUlTimeout]
      split <;> rfl
  | dlEnd => rfl
  | ulEnd => rfl

/- Only a new download makes the downloader active. -/
theorem step_downloading
    (chunk : Nat → Nat → Byte)
    (s : Link)
    {e : LinkEvent}
    (hNoStart :
      ∀ getIndex pIndex filename now,
        e ≠ .start getIndex pIndex filename now)
    (hActive : (s.step chunk e).downloading = true) :
    s.downloading = true := by
  cases e with
  | start getIndex pIndex filename now =>
      exact absurd rfl
        (hNoStart getIndex pIndex filename now)
  | get n admitted pIndex hasIndex ts stack =>
      simp only [step] at hActive
      split at hActive <;> exact hActive
  | data n now ts stack =>
      simp only [step] at hActive
      split at hActive
      · unfold onData at hActive
        split at hActive
        · assumption
        · exact hActive
      · exact hActive
  | ack n now ts stack =>
      simp only [step] at hActive
      split at hActive
      · unfold onAck at hActive
        split at hActive <;> exact hActive
      · exact hActive
  | dlTimeout now ts stack =>
      simp only [step, onDlTimeout] at hActive
      split at hActive
      · assumption
      · exact hActive
  | ulTimeout now ts stack =>
      simp only [step, onUlTimeout] at hActive
      split at hActive <;> exact hActive
  | dlEnd => simp [step] at hActive
  | ulEnd => exact hActive

end Link

end BtPeer
