import BtPeer.Server.State

/-
  The helpers of send_helper.c, with `dl_save_buffer` of
  download.c, which they wrap.

  SHA-1 is the parameter `sha1`: the bytes of the digest of a
  list of bytes.

  Key definitions include:
    * `sendIhave`
    * `parseDownload`
    * `startDownload`
    * `checkHashSucceed`
    * `dlSaveBuffer`
    * `startUpload`
-/

------------------------------------------------------------
-- Discovery
------------------------------------------------------------

namespace BtPeer

/- `send_whohas` -/
def sendWhohas
    (env : Env)
    (s : PeerServer) : PeerServer :=
  s.send env (whohasParam s.getchunks)

/-
  The loop of `send_ihave`, with `k` hashes of the packet
  left: the answer list is filled in place, and a hash that
  is not in `haschunks` is overwritten by the next one.
-/
def ihaveLoop
    (haschunks : ChunkList)
    (pkt : Packet) :
    Nat → Nat → Nat → (Nat → ChunkLine) →
      Nat × (Nat → ChunkLine)
| 0, _, cnt, chunks => (cnt, chunks)
| k + 1, i, cnt, chunks =>
    let chunks :=
      Function.update chunks cnt
        { chunks cnt with sha1 := pkt.getHash i }
    if (hash2Index haschunks (pkt.getHash i)).isSome then
      ihaveLoop haschunks pkt k (i + 1) (cnt + 1) chunks
    else ihaveLoop haschunks pkt k (i + 1) cnt chunks

theorem ihaveLoop_le
    (haschunks : ChunkList)
    (pkt : Packet)
    (k i cnt : Nat)
    (chunks : Nat → ChunkLine) :
    (ihaveLoop haschunks pkt k i cnt chunks).1 ≤
      cnt + k := by
  induction k generalizing i cnt chunks with
  | zero => exact Nat.le_refl cnt
  | succ k ih =>
      simp only [ihaveLoop]
      split
      · exact Nat.le_trans (ih _ _ _) (by omega)
      · exact Nat.le_trans (ih _ _ _) (by omega)

/- The answer list that `send_ihave` leaves behind. -/
def ihaveAnswer
    (s : PeerServer)
    (pkt : Packet) : ChunkList :=
  let out :=
    ihaveLoop s.haschunks pkt pkt.getChunkCnt 0 0
      s.ihavechunks.chunks
  { count :=
      if out.1 = 0 then s.ihavechunks.count else out.1
    chunks := out.2
    count_le := by
      have hCnt : pkt.getChunkCnt < 256 :=
        (pkt.payload pkt.dataOffset.toNat).isLt
      have hLoop :=
        ihaveLoop_le s.haschunks pkt pkt.getChunkCnt 0 0
          s.ihavechunks.chunks
      have hOld := s.ihavechunks.count_le
      simp only [maxChunkNum_eq] at hOld ⊢
      dsimp only [out]
      split <;> omega }

/- `send_ihave` -/
def sendIhave
    (env : Env)
    (s : PeerServer)
    (pkt : Packet)
    (p : Nat) : PeerServer :=
  let out :=
    ihaveLoop s.haschunks pkt pkt.getChunkCnt 0 0
      s.ihavechunks.chunks
  let s := { s with ihavechunks := ihaveAnswer s pkt }
  if out.1 = 0 then s
  else s.send env (ihaveParam s.ihavechunks p)

/-
  The loop of `parse_download`, with `k` hashes left; none
  when memory runs out.
-/
def parseDownloadLoop
    (env : Env)
    (pkt : Packet) :
    Nat → Nat → List CString → Option (List CString)
| 0, _, dq => some dq
| k + 1, i, dq =>
    if env.mallocOk i then
      parseDownloadLoop env pkt k (i + 1)
        (dq ++ [pkt.getHash i])
    else none

/- `parse_download`; the flag is false for -1. -/
def parseDownload
    (env : Env)
    (s : PeerServer)
    (pkt : Packet)
    (p : Nat) : PeerServer × Bool :=
  match parseDownloadLoop env pkt pkt.getChunkCnt 0 [] with
  | some dq =>
      (s.setPeer p { s.peer p with hasqueue := dq }, true)
  | none =>
      (s.setPeer p { s.peer p with hasqueue := [] }, false)

end BtPeer

------------------------------------------------------------
-- Downloads
------------------------------------------------------------

namespace BtPeer

/- `send_get` -/
def sendGet
    (env : Env)
    (s : PeerServer)
    (p getIndex : Nat) : PeerServer :=
  let s := s.setState getIndex .fetching
  s.send env (getParam s.getchunks p getIndex)

/- `start_download` -/
def startDownload
    (env : Env)
    (s : PeerServer)
    (p getIndex : Nat) : PeerServer :=
  let s :=
    s.setPeer p
      { s.peer p with
        dl :=
          dlInit (env.dlInitTs p) p getIndex s.dlFilename }
  { s with dlNum := s.dlNum + 1 }

/- `update_download` -/
def updateDownload
    (env : Env)
    (s : PeerServer)
    (p : Nat)
    (pkt : Packet) : PeerServer :=
  match dlRecv env.rttNow (env.dlTs p) (s.peer p).dl pkt with
  | (dl, sent, _) =>
      (s.setPeer p { s.peer p with dl := dl }).sendAll env sent

/- `kill_download` -/
def killDownload
    (s : PeerServer)
    (dl : Download) : PeerServer :=
  let s := s.setState dl.getIndex .unfetched
  { s with dlNum := s.dlNum - 1 }

/- `check_hash_succeed` -/
def checkHashSucceed
    (sha1 : List Byte → Nat → Byte)
    (s : PeerServer)
    (dl : Download) : Bool :=
  binary2hex
      (sha1 (ByteMemory.block dl.buffer 0 btChunkSize))
      sha1HashSize =
    (s.getchunks.chunks dl.getIndex).sha1.take
      sha1HashStrSize

/- The offset that `dl_save_buffer` seeks to, an `int`. -/
def seekOffset
    (s : PeerServer)
    (dl : Download) : Int :=
  toInt32 ((s.getchunks.chunks dl.getIndex).id * btChunkSize)

/-
  Where the file position is after the `lseek` of
  `dl_save_buffer`. A failed seek, of a negative offset for
  one, leaves it at 0, and the code goes on.
-/
def savePosition
    (env : Env)
    (s : PeerServer)
    (dl : Download) : Nat :=
  if env.lseekOk ∧ 0 ≤ seekOffset s dl then
    (seekOffset s dl).toNat
  else 0

/- The output file after the `write` of `dl_save_buffer`. -/
def writeBuffer
    (env : Env)
    (s : PeerServer)
    (dl : Download) : PeerServer :=
  { s with
    files :=
      Function.update s.files dl.filename
        (ByteMemory.pwrite 0 (s.files dl.filename)
          (savePosition env s dl) dl.buffer
          (min env.written btChunkSize)) }

/- The bookkeeping of `dl_save_buffer` for a full write. -/
def markFetched
    (s : PeerServer)
    (dl : Download) : PeerServer :=
  let s := s.setState dl.getIndex .fetched
  { s with
    dlRemain := s.dlRemain - 1
    got :=
      if s.dlRemain - 1 = 0 then s.got ++ [s.getchunkFile]
      else s.got }

/- `dl_save_buffer`; the flag is false for -1. -/
def dlSaveBuffer
    (env : Env)
    (s : PeerServer)
    (dl : Download) : PeerServer × Bool :=
  if env.openOk then
    let s := writeBuffer env s dl
    if btChunkSize ≤ env.written then (markFetched s dl, true)
    else (s, false)
  else (s, false)

end BtPeer

------------------------------------------------------------
-- Uploads
------------------------------------------------------------

namespace BtPeer

/- `GET_CHUNK_OFFSET` on `haschunks`, an `int`. -/
def getChunkOffset
    (s : PeerServer)
    (hasIndex : Nat) : Int :=
  toInt32 ((s.haschunks.chunks hasIndex).id * btChunkSize)

/-
  `load_data`: the mapped chunk, none for -1. `mmap` takes no
  negative offset.
-/
def loadData
    (env : Env)
    (s : PeerServer)
    (hasIndex : Nat) : Option (Nat → Byte) :=
  let offset := getChunkOffset s hasIndex
  if env.mmapOk ∧ 0 ≤ offset then
    some (fun i => s.masterChunk (offset.toNat + i))
  else none

/- `start_upload`; the flag is false for -1. -/
def startUpload
    (env : Env)
    (s : PeerServer)
    (p hasIndex : Nat) : PeerServer × Bool :=
  match ulInit p hasIndex (loadData env s hasIndex) with
  | (ul, false) =>
      (s.setPeer p { s.peer p with ul := ul }, false)
  | (ul, true) =>
      match ulSend (env.sendTs p) ul with
      | (ul, sent, ok) =>
          let s :=
            (s.setPeer p { s.peer p with ul := ul }).sendAll
              env sent
          if ok then
            ({ s with ulNum := s.ulNum + 1 }, true)
          else (s, false)

/- `update_upload` -/
def updateUpload
    (env : Env)
    (s : PeerServer)
    (p : Nat)
    (pkt : Packet) : PeerServer :=
  let ul := ulHandleAck env.rttNow (s.peer p).ul pkt.ack
  match ulSend (env.sendTs p) ul with
  | (ul, sent, _) =>
      (s.setPeer p { s.peer p with ul := ul }).sendAll env sent

/- `finish_upload`, which `kill_upload` is another name of. -/
def finishUpload
    (s : PeerServer)
    (p : Nat) : PeerServer :=
  let s :=
    s.setPeer p { s.peer p with ul := ulDeinit (s.peer p).ul }
  { s with ulNum := s.ulNum - 1 }

end BtPeer
