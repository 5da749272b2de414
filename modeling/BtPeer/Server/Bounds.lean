import BtPeer.Server.ParsePacket
import BtPeer.Packet.ExtHeader
import BtPeer.Transfer.Reassembly

/-
  The packet handler with every access to the payload array,
  to the answer list and to the download buffer checked.

  The functions named with a question mark compute what the
  plain ones compute from accesses that are none outside of
  the array. That they agree with the plain ones says that no
  access leaves its array.

  Key definitions include:
    * `Packet.readPayload?`
    * `sendIhave?`
    * `parseDownload?`
    * `dlRecv?`
    * `parsePacket?`

  Key theorems include:
    * `Packet.readPayload?_of_bounds`
    * `sendIhave?_eq`
    * `parseDownload?_eq`
    * `dlRecv?_eq`
    * `accepted_inBounds`
    * `dlRecv_dataLength_le`
-/

------------------------------------------------------------
-- Checked Accesses
------------------------------------------------------------

namespace BtPeer

namespace Packet

/-
  The `len` bytes of the payload array from `off` on, none
  when one of them is outside.
-/
def readPayload?
    (pkt : Packet)
    (off len : Int) : Option (Nat → Byte) :=
  if 0 ≤ off ∧ 0 ≤ len ∧ off + len ≤ maxPayloadSize then
    some (fun i => pkt.payload (off.toNat + i))
  else none

theorem readPayload?_of_bounds
    {pkt : Packet}
    {off len : Int}
    (hLow : 0 ≤ off)
    (hLen : 0 ≤ len)
    (hHigh : off + len ≤ maxPayloadSize) :
    pkt.readPayload? off len =
      some (fun i => pkt.payload (off.toNat + i)) :=
  if_pos ⟨hLow, hLen, hHigh⟩

/- `GET_CHUNK_CNT`, one byte. -/
def getChunkCnt?
    (pkt : Packet) : Option Nat :=
  (pkt.readPayload? pkt.dataOffset 1).map
    (fun bytes => (bytes 0).toNat)

/- `GET_HASH`, the bytes of one hash. -/
def getHash?
    (pkt : Packet)
    (n : Nat) : Option CString :=
  (pkt.readPayload? (pkt.hashOffset n) sha1HashSize).map
    (fun bytes => binary2hex bytes sha1HashSize)

/- The `GET_DATA_LEN` bytes from `GET_DATA` on. -/
def getData?
    (pkt : Packet) : Option (Nat → Byte) :=
  pkt.readPayload? pkt.dataOffset pkt.getDataLen

end Packet

/- `valid_packet` -/
def validPacket? (pkt : Packet) : Option Bool :=
  if pkt.magic ≠ magicNumber then some false
  else if pkt.version ≠ versionNumber then some false
  else if pkt.pktLen < pkt.hdrLen ∨
      pkt.hdrLen.toNat < headerSize then
    some false
  else if packetSize < pkt.pktLen.toNat then some false
  else
    match PacketType.ofCode pkt.type with
    | some .whohas | some .ihave =>
        if pkt.getDataLen < 4 then some false
        else
          pkt.getChunkCnt?.map
            (fun cnt : Nat =>
              ! (cnt = 0 ||
                (pkt.getDataLen - 4) / sha1HashSize < cnt))
    | some .get =>
        some (! (pkt.getDataLen < sha1HashSize))
    | _ => some true

/-
  The loop of `send_ihave`. The answer list takes the hashes
  of one packet.
-/
def ihaveLoop?
    (haschunks : ChunkList)
    (pkt : Packet) :
    Nat → Nat → Nat → (Nat → ChunkLine) →
      Option (Nat × (Nat → ChunkLine))
| 0, _, cnt, chunks => some (cnt, chunks)
| k + 1, i, cnt, chunks =>
    if cnt < hashNumPkt then
      (pkt.getHash? i).bind (fun hash =>
        let chunks :=
          Function.update chunks cnt
            { chunks cnt with sha1 := hash }
        if (hash2Index haschunks hash).isSome then
          ihaveLoop? haschunks pkt k (i + 1) (cnt + 1) chunks
        else ihaveLoop? haschunks pkt k (i + 1) cnt chunks)
    else none

/- `send_ihave` -/
def sendIhave?
    (env : Env)
    (s : PeerServer)
    (pkt : Packet)
    (p : Nat) : Option PeerServer :=
  pkt.getChunkCnt?.bind (fun count =>
    (ihaveLoop? s.haschunks pkt count 0 0
        s.ihavechunks.chunks).bind (fun out =>
      if hFits : out.1 ≤ hashNumPkt then
        let s :=
          { s with
            ihavechunks :=
              { count :=
                  if out.1 = 0 then s.ihavechunks.count
                  else out.1
                chunks := out.2
                count_le := by
                  have hOld := s.ihavechunks.count_le
                  simp only [hashNumPkt_eq, maxChunkNum_eq]
                    at hFits hOld ⊢
                  split <;> omega } }
        if out.1 = 0 then some s
        else some (s.send env (ihaveParam s.ihavechunks p))
      else none))

/- The loop of `parse_download`. -/
def parseDownloadLoop?
    (env : Env)
    (pkt : Packet) :
    Nat → Nat → List CString → Option (Option (List CString))
| 0, _, dq => some (some dq)
| k + 1, i, dq =>
    if env.mallocOk i then
      (pkt.getHash? i).bind (fun hash =>
        parseDownloadLoop? env pkt k (i + 1) (dq ++ [hash]))
    else some none

/- `parse_download` -/
def parseDownload?
    (env : Env)
    (s : PeerServer)
    (pkt : Packet)
    (p : Nat) : Option (PeerServer × Bool) :=
  pkt.getChunkCnt?.bind (fun count =>
    (parseDownloadLoop? env pkt count 0 []).map (fun out =>
      match out with
      | some dq =>
          (s.setPeer p { s.peer p with hasqueue := dq }, true)
      | none =>
          (s.setPeer p { s.peer p with hasqueue := [] },
            false)))

/- The `memcpy` of `dl_recv`. -/
def storeSegment?
    (dl : Download)
    (pkt : Packet) : Option Download :=
  if seqExistIn dl.rwin pkt.seq then some dl
  else
    pkt.getData?.bind (fun data =>
      if segmentOffset dl pkt.seq + pkt.getDataLen.toNat ≤
          btChunkSize then
        some
          { dl with
            buffer :=
              ByteMemory.memcpy dl.buffer
                (segmentOffset dl pkt.seq) data
                pkt.getDataLen.toNat
            rwin := recvwinMark dl.rwin pkt.seq }
      else none)

/- `dl_recv` -/
def dlRecv?
    (now ts : Word)
    (dl : Download)
    (pkt : Packet) :
    Option (Download × List PktParam × Bool) :=
  if dl.finished then some (dl, [], true)
  else
    let dl := recordLength now dl pkt
    if ! seqFitIn dl.rwin pkt.seq ||
        decide
          (btChunkSize <
            segmentOffset dl pkt.seq +
              pkt.getDataLen.toNat) then
      some (dl, [], false)
    else
      (storeSegment? dl pkt).map (fun stored =>
        match getAck stored with
        | (dl, ack) =>
            (markFinished { dl with ts := ts, timeoutCnt := 0 },
              [ackParam dl.pIndex ack], true))

end BtPeer

------------------------------------------------------------
-- The Checked Handler
------------------------------------------------------------

namespace BtPeer

/- The WHOHAS branch of `parse_packet`. -/
def handleWhohas?
    (env : Env)
    (s : PeerServer)
    (pkt : Packet)
    (p : Nat) : Option PeerServer :=
  if s.maxConn ≤ s.ulNum then some s
  else
    let s := s.setPeer p { s.peer p with isAlive := true }
    if (s.peer p).isUploading then some s
    else sendIhave? env s pkt p

/- The IHAVE branch of `parse_packet`. -/
def handleIhave?
    (env : Env)
    (s : PeerServer)
    (pkt : Packet)
    (p : Nat) : Option PeerServer :=
  let s := s.setPeer p { s.peer p with isAlive := true }
  if (s.peer p).isDownloading then some s
  else
    (parseDownload? env s pkt p).map (fun out =>
      match out with
      | (s, false) => s
      | (s, true) =>
          if s.maxConn ≤ s.dlNum then s
          else trySendGet env s p)

/- The GET branch of `parse_packet`. -/
def handleGet?
    (env : Env)
    (s : PeerServer)
    (pkt : Packet)
    (p : Nat) : Option PeerServer :=
  if ! (s.peer p).isAlive then some s
  else if s.maxConn ≤ s.ulNum then some s
  else
    (pkt.getHash? 0).map (fun hash =>
      match hash2Index s.haschunks hash with
      | none => s
      | some hasIndex =>
          let s :=
            if (s.peer p).isUploading then finishUpload s p
            else s
          match startUpload env s p hasIndex with
          | (s, _) =>
              s.setPeer p { s.peer p with isUploading := true })

/- The DATA branch of `parse_packet`. -/
def handleData?
    (sha1 : List Byte → Nat → Byte)
    (env : Env)
    (s : PeerServer)
    (pkt : Packet)
    (p : Nat) : Option PeerServer :=
  if ! (s.peer p).isAlive || ! (s.peer p).isDownloading then
    some s
  else
    (dlRecv? env.rttNow (env.dlTs p) (s.peer p).dl pkt).map
      (fun out =>
        let s :=
          (s.setPeer p
            { s.peer p with dl := out.1 }).sendAll env out.2.1
        if (s.peer p).dl.finished then
          let s := completeDownload sha1 env s p
          if 0 < s.dlRemain then refreshChunkDownload env s
          else s
        else s)

/- `parse_packet` -/
def parsePacket?
    (sha1 : List Byte → Nat → Byte)
    (env : Env)
    (s : PeerServer)
    (pkt : Packet)
    (sender : Address) : Option PeerServer :=
  match addr2Index s sender with
  | none => some s
  | some p =>
      match PacketType.ofCode pkt.type with
      | some .whohas => handleWhohas? env s pkt p
      | some .ihave => handleIhave? env s pkt p
      | some .get => handleGet? env s pkt p
      | some .data => handleData? sha1 env s pkt p
      | some .ack => some (handleAck env s pkt p)
      | _ => some s

end BtPeer

------------------------------------------------------------
-- Ranges Inside The Payload
------------------------------------------------------------

namespace BtPeer

variable {pkt : Packet}

/- The lengths that `valid_packet` checks before the type. -/
structure Packet.Sized
    (pkt : Packet) : Prop where
  header : headerSize ≤ pkt.hdrLen.toNat
  data : pkt.hdrLen.toNat ≤ pkt.pktLen.toNat
  size : pkt.pktLen.toNat ≤ packetSize

theorem Packet.Sized.of_valid
    (hValid : validPacket pkt = true) :
    pkt.Sized := by
  rcases validPacket_header hValid with ⟨hHeader, hData, hSize⟩
  exact ⟨hHeader, hData, hSize⟩

/-
  The clamped offset leaves room for one byte even before the
  data length is checked against the type.
-/
theorem Packet.Sized.getChunkCnt?_eq
    (hSized : pkt.Sized) :
    pkt.getChunkCnt? = some pkt.getChunkCnt := by
  rcases hSized with ⟨hHeader, hData, hSize⟩
  simp only [headerSize_eq, packetSize_eq] at hHeader hSize
  have hLow : 0 ≤ pkt.dataOffset := by
    simp only [Packet.dataOffset, Packet.maxOffset,
      Packet.extHeaderSize, headerSize_eq]
    omega
  have hHigh : pkt.dataOffset + 1 ≤ maxPayloadSize := by
    simp only [Packet.dataOffset, Packet.maxOffset,
      Packet.extHeaderSize, Packet.getDataLen,
      headerSize_eq, sha1HashSize_eq, maxPayloadSize_eq]
    omega
  unfold Packet.getChunkCnt?
  rw [Packet.readPayload?_of_bounds hLow (by omega) hHigh]
  rfl

/- Every clamped hash is inside, whatever its number. -/
theorem Packet.Sized.getHash?_eq
    (hSized : pkt.Sized)
    (n : Nat) :
    pkt.getHash? n = some (pkt.getHash n) := by
  rcases hSized with ⟨hHeader, hData, hSize⟩
  simp only [headerSize_eq, packetSize_eq] at hHeader hSize
  have hCount : 0 ≤ pkt.countSize := by
    unfold Packet.countSize
    split <;> omega
  have hLow : 0 ≤ pkt.hashOffset n := by
    simp only [Packet.hashOffset, Packet.maxOffset,
      Packet.extHeaderSize, headerSize_eq, sha1HashSize_eq]
    omega
  have hHigh :
      pkt.hashOffset n + sha1HashSize ≤ maxPayloadSize := by
    simp only [Packet.hashOffset, Packet.maxOffset,
      Packet.getDataLen, sha1HashSize_eq, maxPayloadSize_eq]
    omega
  unfold Packet.getHash?
  rw [Packet.readPayload?_of_bounds hLow
    (Int.natCast_nonneg _) hHigh]
  rfl

/- The data ends where the packet ends, or before. -/
theorem Packet.Sized.getData?_eq
    (hSized : pkt.Sized) :
    pkt.getData? = some pkt.getData := by
  rcases hSized with ⟨hHeader, hData, hSize⟩
  simp only [headerSize_eq, packetSize_eq] at hHeader hSize
  have hLow : 0 ≤ pkt.dataOffset := by
    simp only [Packet.dataOffset, Packet.maxOffset,
      Packet.extHeaderSize, headerSize_eq]
    omega
  have hLen : 0 ≤ pkt.getDataLen := by
    unfold Packet.getDataLen
    omega
  have hHigh :
      pkt.dataOffset + pkt.getDataLen ≤ maxPayloadSize := by
    simp only [Packet.dataOffset, Packet.extHeaderSize,
      Packet.getDataLen, headerSize_eq, maxPayloadSize_eq]
    omega
  unfold Packet.getData?
  rw [Packet.readPayload?_of_bounds hLow hLen hHigh]
  rfl

/- The claimed count fits in one packet. -/
theorem getChunkCnt_le_hashNumPkt
    (hValid : validPacket pkt = true)
    (hCount : pkt.HasCount) :
    pkt.getChunkCnt ≤ hashNumPkt := by
  have hSized := Packet.Sized.of_valid hValid
  have hHashes := validPacket_hashes hValid hCount
  have hHeader := hSized.header
  have hSize := hSized.size
  simp only [Packet.getDataLen, headerSize_eq, packetSize_eq,
    sha1HashSize_eq, hashNumPkt_eq] at *
  omega

/- `valid_packet` itself reads the count in bounds. -/
theorem validPacket?_eq
    (pkt : Packet) :
    validPacket? pkt = some (validPacket pkt) := by
  unfold validPacket? validPacket
  split
  · rfl
  · split
    · rfl
    · split
      · rfl
      · rename_i hLengths
        split
        · rfl
        · rename_i hSize
          have hSized : pkt.Sized := by
            rw [BitVec.lt_def] at hLengths
            constructor <;> omega
          cases hType : PacketType.ofCode pkt.type with
          | none => rfl
          | some t =>
              cases t
              case whohas | ihave =>
                dsimp only
                split
                · rfl
                · rw [hSized.getChunkCnt?_eq]
                  rfl
              all_goals rfl

end BtPeer

------------------------------------------------------------
-- The Checked Functions Agree
------------------------------------------------------------

namespace BtPeer

variable {pkt : Packet}

/-
  The answers so far and the hashes left are at most the
  count, so every entry written is one of `hashNumPkt`.
-/
theorem ihaveLoop?_eq
    (hSized : pkt.Sized)
    (haschunks : ChunkList)
    {k i cnt : Nat}
    (hRoom : cnt + k ≤ hashNumPkt)
    (chunks : Nat → ChunkLine) :
    ihaveLoop? haschunks pkt k i cnt chunks =
      some (ihaveLoop haschunks pkt k i cnt chunks) := by
  induction k generalizing i cnt chunks with
  | zero => rfl
  | succ k ih =>
      have hEntry : cnt < hashNumPkt := by omega
      simp only [ihaveLoop?, ihaveLoop, if_pos hEntry,
        hSized.getHash?_eq, Option.bind_some]
      split
      · exact ih (by omega) _
      · exact ih (by omega) _

theorem sendIhave?_eq
    (hValid : validPacket pkt = true)
    (hCount : pkt.HasCount)
    (env : Env)
    (s : PeerServer)
    (p : Nat) :
    sendIhave? env s pkt p = some (sendIhave env s pkt p) := by
  have hSized := Packet.Sized.of_valid hValid
  have hRoom : 0 + pkt.getChunkCnt ≤ hashNumPkt := by
    rw [Nat.zero_add]
    exact getChunkCnt_le_hashNumPkt hValid hCount
  have hFits :=
    (ihaveLoop_le s.haschunks pkt pkt.getChunkCnt 0 0
      s.ihavechunks.chunks).trans hRoom
  unfold sendIhave?
  rw [hSized.getChunkCnt?_eq, Option.bind_some,
    ihaveLoop?_eq hSized s.haschunks hRoom, Option.bind_some,
    dif_pos hFits]
  exact (apply_ite some _ _ _).symm

theorem parseDownloadLoop?_eq
    (hSized : pkt.Sized)
    (env : Env)
    (k i : Nat)
    (dq : List CString) :
    parseDownloadLoop? env pkt k i dq =
      some (parseDownloadLoop env pkt k i dq) := by
  induction k generalizing i dq with
  | zero => rfl
  | succ k ih =>
      simp only [parseDownloadLoop?, parseDownloadLoop,
        hSized.getHash?_eq, Option.bind_some]
      split
      · exact ih (i + 1) _
      · rfl

theorem parseDownload?_eq
    (hSized : pkt.Sized)
    (env : Env)
    (s : PeerServer)
    (p : Nat) :
    parseDownload? env s pkt p =
      some (parseDownload env s pkt p) := by
  unfold parseDownload? parseDownload
  rw [hSized.getChunkCnt?_eq, Option.bind_some,
    parseDownloadLoop?_eq hSized]
  cases parseDownloadLoop env pkt pkt.getChunkCnt 0 [] with
  | none => rfl
  | some dq => rfl

/- The rejection in `dl_recv` is what keeps the copy inside. -/
theorem storeSegment?_eq
    (hSized : pkt.Sized)
    {dl : Download}
    (hFits :
      segmentOffset dl pkt.seq + pkt.getDataLen.toNat ≤
        btChunkSize) :
    storeSegment? dl pkt = some (storeSegment dl pkt) := by
  unfold storeSegment? storeSegment
  rw [hSized.getData?_eq, Option.bind_some, if_pos hFits]
  split <;> rfl

theorem dlRecv?_eq
    (hSized : pkt.Sized)
    (now ts : Word)
    (dl : Download) :
    dlRecv? now ts dl pkt = some (dlRecv now ts dl pkt) := by
  unfold dlRecv? dlRecv
  split
  · rfl
  · dsimp only
    split
    · rfl
    · rename_i hTaken
      have hFits :
          segmentOffset (recordLength now dl pkt) pkt.seq +
              pkt.getDataLen.toNat ≤
            btChunkSize := by
        simp only [Bool.or_eq_true, decide_eq_true_eq,
          not_or] at hTaken
        exact Nat.le_of_not_lt hTaken.2
      rw [storeSegment?_eq hSized hFits, Option.map_some]

theorem parsePacket?_eq
    (hValid : validPacket pkt = true)
    (sha1 : List Byte → Nat → Byte)
    (env : Env)
    (s : PeerServer)
    (sender : Address) :
    parsePacket? sha1 env s pkt sender =
      some (parsePacket sha1 env s pkt sender) := by
  have hSized := Packet.Sized.of_valid hValid
  unfold parsePacket? parsePacket
  cases addr2Index s sender with
  | none => rfl
  | some p =>
      cases hType : PacketType.ofCode pkt.type with
      | none => rfl
      | some t =>
          cases t with
          | whohas =>
              dsimp only
              unfold handleWhohas? handleWhohas
              split
              · rfl
              · dsimp only
                split
                · rfl
                · exact sendIhave?_eq hValid (.inl hType) _ _ _
          | ihave =>
              dsimp only
              unfold handleIhave? handleIhave
              dsimp only
              split
              · rfl
              · rw [parseDownload?_eq hSized]
                rcases parseDownload env _ pkt p with
                  ⟨s', _ | _⟩ <;> rfl
          | get =>
              dsimp only
              unfold handleGet? handleGet
              split
              · rfl
              · split
                · rfl
                · cases hIndex :
                      hash2Index s.haschunks (pkt.getHash 0) <;>
                    simp only [hSized.getHash?_eq,
                      Option.map_some, hIndex]
          | data =>
              dsimp only
              unfold handleData? handleData
              split
              · rfl
              · rw [dlRecv?_eq hSized, Option.map_some]
                rfl
          | ack => rfl
          | denied => rfl

/-
  An accepted packet is checked and handled with every access
  inside its array: the payload, the answer list and the
  buffer of the download.
-/
theorem accepted_inBounds
    (hValid : validPacket pkt = true) :
    validPacket? pkt = some true ∧
      ∀ (sha1 : List Byte → Nat → Byte)
        (env : Env)
        (s : PeerServer)
        (sender : Address),
        parsePacket? sha1 env s pkt sender =
          some (parsePacket sha1 env s pkt sender) := by
  constructor
  · rw [validPacket?_eq, hValid]
  · exact parsePacket?_eq hValid

/- A GET that asks the sample server for its chunk. -/
theorem accepted_inBounds_get :
    parsePacket? (fun _ _ => 0) sampleEnv sampleServer
        (samplePacket .get) sampleAddress =
      some
        (parsePacket (fun _ _ => 0) sampleEnv sampleServer
          (samplePacket .get) sampleAddress) :=
  (accepted_inBounds (by decide)).2 _ _ _ _

end BtPeer

------------------------------------------------------------
-- The Offset In The Buffer
------------------------------------------------------------

namespace BtPeer

/-
  No download records more than one payload as its segment
  length, so the product in `segmentOffset` is far below the
  range of a `size_t`.
-/
theorem dlRecv_dataLength_le
    {pkt : Packet}
    (hSized : pkt.Sized)
    {dl : Download}
    (hLength : dl.dataLength ≤ maxPayloadSize)
    (now ts : Word) :
    (dlRecv now ts dl pkt).1.dataLength ≤ maxPayloadSize := by
  have hRecorded :
      (recordLength now dl pkt).dataLength ≤
        maxPayloadSize := by
    unfold recordLength
    split
    · exact hLength
    · have hHeader := hSized.header
      have hSize := hSized.size
      simp only [Packet.getDataLen, headerSize_eq,
        packetSize_eq, maxPayloadSize_eq] at hHeader hSize ⊢
      omega
  unfold dlRecv
  split
  · exact hLength
  · dsimp only
    split
    · exact hRecorded
    · simp only [getAck, markFinished_dataLength,
        slideAck_dataLength, storeSegment_dataLength]
      exact hRecorded

theorem segmentOffset_lt
    {dl : Download}
    (hLength : dl.dataLength ≤ maxPayloadSize)
    (seq : Word) :
    segmentOffset dl seq < 2 ^ 64 := by
  have hSeq := (seq - 1).isLt
  have hProduct :
      segmentOffset dl seq ≤ 2 ^ 32 * maxPayloadSize :=
    Nat.mul_le_mul (Nat.le_of_lt hSeq) hLength
  simp only [maxPayloadSize_eq] at hProduct
  omega

end BtPeer
