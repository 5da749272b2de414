import BtPeer.Basic

/-
  The first line of the master chunk file (`readString` of
  peer_server.c).

  The loop ends at a newline only, and what `realloc` returns
  is never stored in `str`: at the end of the file it goes on
  over bytes 0xFF, and a block that had to be moved is
  written to after it was freed.

  Key definitions include:
    * `readStep`
    * `readString`
    * `ReadsLine`
    * `LineReadable`

  Key theorems include:
    * `readLoop_line`
    * `readLoop_returned`
    * `readString_line_iff`
-/

------------------------------------------------------------
-- The Loop
------------------------------------------------------------

namespace BtPeer

/- `BUFFER` -/
def buffer : Nat := 256

/- '\n' as a byte of a file. -/
def lineEnd : Byte := 10

/- `(char) fgetc(fp)`: EOF is -1, which is the byte 0xFF. -/
def fgetc (file : List Byte) : Byte :=
  file.headD 0xFF

/- What `realloc` did with the block. -/
inductive Realloc where
  | failed
  | inPlace
  | moved
deriving DecidableEq, Repr

/-
  The allocator: whether the first block is there, and its
  answer when the block is to grow at `pos`.
-/
structure Allocator where
  malloc : Bool
  realloc : Nat → Realloc

/-
  `realloc(str, sizeof(char) * (BUFFER + pos + 1))`. The size
  is an `int`; a negative one becomes more than any object
  may have.
-/
def Allocator.grow
    (alloc : Allocator)
    (pos : Nat) : Realloc :=
  if toInt32 (buffer + pos + 1) < 0 then .failed
  else alloc.realloc pos

/-
  `str` points to `size` bytes as long as it is live, and
  `file` is what was not read yet.
-/
structure ReadState where
  file : List Byte
  str : Nat → Byte
  size : Nat
  live : Bool
  pos : Nat

/-
  What is known after some steps: the loop is still running,
  or it returned a string or NULL, or it used memory that is
  not its own.
-/
inductive ReadResult where
  | running (s : ReadState)
  | returned (str : Nat → Byte)
  | null
  | undefined

/- One test of the loop's condition and one pass of its body. -/
def readStep
    (alloc : Allocator)
    (s : ReadState) : ReadResult :=
  if s.live = true ∧ s.pos < s.size then
    let c := fgetc s.file
    let str := Function.update s.str s.pos c
    let next : ReadState :=
      { s with
        file := s.file.tail
        str := str
        pos := s.pos + 1 }
    if c = lineEnd then
      .returned (Function.update str s.pos 0)
    else if s.pos % buffer = buffer - 1 then
      match alloc.grow s.pos with
      | .failed => .null
      | .inPlace =>
          .running { next with size := buffer + s.pos + 1 }
      | .moved => .running { next with live := false }
    else .running next
  else .undefined

/- At most `n` steps of the loop. -/
def readLoop
    (alloc : Allocator) :
    Nat → ReadState → ReadResult
| 0, s => .running s
| n + 1, s =>
    match readStep alloc s with
    | .running s' => readLoop alloc n s'
    | result => result

/- `malloc` of the first block. -/
def readStart
    (alloc : Allocator)
    (file : List Byte) : ReadState where
  file := file
  str := fun _ => 0
  size := buffer
  live := alloc.malloc
  pos := 0

/- `readString` on a file, after at most `n` steps. -/
def readString
    (alloc : Allocator)
    (file : List Byte)
    (n : Nat) : ReadResult :=
  readLoop alloc n (readStart alloc file)

end BtPeer

------------------------------------------------------------
-- The Line of a File
------------------------------------------------------------

namespace BtPeer

/- The bytes up to the first newline or the end. -/
def lineOf (file : List Byte) : List Byte :=
  file.takeWhile (· ≠ lineEnd)

theorem lineOf_lineEnd (file : List Byte) :
    lineOf (lineEnd :: file) = [] := by
  simp [lineOf]

theorem lineOf_cons
    {b : Byte}
    (hByte : b ≠ lineEnd)
    (file : List Byte) :
    lineOf (b :: file) = b :: lineOf file := by
  simp [lineOf, hByte]

/-
  After finitely many steps `readString` has returned, and
  the string is the line, ended with a zero byte.
-/
def ReadsLine
    (alloc : Allocator)
    (file : List Byte) : Prop :=
  ∃ n str,
    readString alloc file n = .returned str ∧
      (∀ i b, (lineOf file)[i]? = some b → str i = b) ∧
      str (lineOf file).length = 0

/-
  The file has a newline, its first line is below the
  largest `int` size, and the block is there and is never
  moved while the line is read.
-/
structure LineReadable
    (alloc : Allocator)
    (file : List Byte) : Prop where
  newline : lineEnd ∈ file
  length : (lineOf file).length ≤ 2147483391
  malloc : alloc.malloc = true
  realloc :
    ∀ pos, pos < (lineOf file).length →
      pos % buffer = buffer - 1 →
      alloc.realloc pos = .inPlace

end BtPeer

------------------------------------------------------------
-- One Step
------------------------------------------------------------

namespace BtPeer

/- The block is there and reaches to the next multiple. -/
structure InBlock (s : ReadState) : Prop where
  live : s.live = true
  size : s.size = buffer * (s.pos / buffer + 1)

theorem inBlock_readStart
    {alloc : Allocator}
    (hMalloc : alloc.malloc = true)
    (file : List Byte) :
    InBlock (readStart alloc file) := by
  refine ⟨hMalloc, ?_⟩
  change buffer = buffer * (0 / buffer + 1)
  decide

theorem readStart_pos_add
    (alloc : Allocator)
    (file : List Byte)
    (i : Nat) :
    (readStart alloc file).pos + i = i :=
  Nat.zero_add i

/- `str[pos]` is inside the block. -/
theorem InBlock.room
    {s : ReadState}
    (hBlock : InBlock s) :
    s.pos < s.size := by
  rw [hBlock.size]
  unfold buffer
  omega

/- A newline ends the loop. -/
theorem readStep_lineEnd
    (alloc : Allocator)
    {s : ReadState}
    (hBlock : InBlock s)
    (hEnd : fgetc s.file = lineEnd) :
    readStep alloc s =
      .returned
        (Function.update
          (Function.update s.str s.pos lineEnd) s.pos 0) := by
  unfold readStep
  rw [if_pos ⟨hBlock.live, hBlock.room⟩]
  simp only [hEnd, if_true]

/- Any other byte is stored, when the block stays where it is. -/
theorem readStep_byte
    {alloc : Allocator}
    {s : ReadState}
    (hBlock : InBlock s)
    (hByte : fgetc s.file ≠ lineEnd)
    (hGrow :
      s.pos % buffer = buffer - 1 →
        alloc.grow s.pos = .inPlace) :
    ∃ s',
      readStep alloc s = .running s' ∧
        InBlock s' ∧
        s'.file = s.file.tail ∧
        s'.str =
          Function.update s.str s.pos (fgetc s.file) ∧
        s'.pos = s.pos + 1 := by
  have hSize := hBlock.size
  unfold readStep
  rw [if_pos ⟨hBlock.live, hBlock.room⟩, if_neg hByte]
  by_cases hFull : s.pos % buffer = buffer - 1
  · rw [if_pos hFull, hGrow hFull]
    refine ⟨_, rfl, ⟨hBlock.live, ?_⟩, rfl, rfl, rfl⟩
    change buffer + s.pos + 1 =
      buffer * ((s.pos + 1) / buffer + 1)
    unfold buffer at hFull ⊢
    omega
  · rw [if_neg hFull]
    refine ⟨_, rfl, ⟨hBlock.live, ?_⟩, rfl, rfl, rfl⟩
    change s.size = buffer * ((s.pos + 1) / buffer + 1)
    unfold buffer at hFull hSize ⊢
    omega

/- The loop returns a string at a newline only. -/
theorem readStep_returned
    {alloc : Allocator}
    {s : ReadState}
    {str : Nat → Byte}
    (hStep : readStep alloc s = .returned str) :
    s.live = true ∧ fgetc s.file = lineEnd := by
  unfold readStep at hStep
  by_cases hRoom : s.live = true ∧ s.pos < s.size
  · rw [if_pos hRoom] at hStep
    refine ⟨hRoom.1, ?_⟩
    by_contra hByte
    rw [if_neg hByte] at hStep
    by_cases hFull : s.pos % buffer = buffer - 1
    · rw [if_pos hFull] at hStep
      cases hGrow : alloc.grow s.pos <;>
        rw [hGrow] at hStep <;>
        cases hStep
    · rw [if_neg hFull] at hStep
      cases hStep
  · rw [if_neg hRoom] at hStep
    cases hStep

/-
  The loop goes on behind a byte other than a newline. Its
  block is live only if it did not have to move.
-/
theorem readStep_running
    {alloc : Allocator}
    {s s' : ReadState}
    (hStep : readStep alloc s = .running s') :
    s.live = true ∧
      fgetc s.file ≠ lineEnd ∧
      s'.file = s.file.tail ∧
      s'.pos = s.pos + 1 ∧
      (s'.live = true →
        s.pos % buffer = buffer - 1 →
        alloc.grow s.pos = .inPlace) := by
  unfold readStep at hStep
  by_cases hRoom : s.live = true ∧ s.pos < s.size
  · rw [if_pos hRoom] at hStep
    by_cases hEnd : fgetc s.file = lineEnd
    · rw [if_pos hEnd] at hStep
      cases hStep
    · rw [if_neg hEnd] at hStep
      by_cases hFull : s.pos % buffer = buffer - 1
      · rw [if_pos hFull] at hStep
        cases hGrow : alloc.grow s.pos with
        | failed =>
            rw [hGrow] at hStep
            cases hStep
        | inPlace =>
            rw [hGrow] at hStep
            cases hStep
            exact ⟨hRoom.1, hEnd, rfl, rfl, fun _ _ => rfl⟩
        | moved =>
            rw [hGrow] at hStep
            cases hStep
            refine ⟨hRoom.1, hEnd, rfl, rfl, ?_⟩
            intro hLive
            cases hLive
      · rw [if_neg hFull] at hStep
        cases hStep
        exact
          ⟨hRoom.1, hEnd, rfl, rfl,
            fun _ hAgain => absurd hAgain hFull⟩
  · rw [if_neg hRoom] at hStep
    cases hStep

end BtPeer

------------------------------------------------------------
-- Whole Runs
------------------------------------------------------------

namespace BtPeer

/-
  With a newline ahead and a block that is never moved on
  the way, the loop returns the line behind what it has.
-/
theorem readLoop_line
    {alloc : Allocator}
    (file : List Byte)
    {s : ReadState}
    (hFile : s.file = file)
    (hBlock : InBlock s)
    (hNewline : lineEnd ∈ file)
    (hGrow :
      ∀ i, i < (lineOf file).length →
        (s.pos + i) % buffer = buffer - 1 →
        alloc.grow (s.pos + i) = .inPlace) :
    ∃ str,
      readLoop alloc ((lineOf file).length + 1) s =
          .returned str ∧
        (∀ i, i < s.pos → str i = s.str i) ∧
        (∀ i b, (lineOf file)[i]? = some b →
          str (s.pos + i) = b) ∧
        str (s.pos + (lineOf file).length) = 0 := by
  induction file generalizing s with
  | nil => exact absurd hNewline List.not_mem_nil
  | cons b file ih =>
      have hHead : fgetc s.file = b := by rw [hFile]; rfl
      by_cases hByte : b = lineEnd
      · subst hByte
        rw [lineOf_lineEnd]
        simp only [readLoop, List.length_nil,
          readStep_lineEnd alloc hBlock hHead]
        refine ⟨_, rfl, ?_, ?_, ?_⟩
        · intro i hi
          rw [Function.update_of_ne (Nat.ne_of_lt hi),
            Function.update_of_ne (Nat.ne_of_lt hi)]
        · intro i c hGet
          cases hGet
        · exact Function.update_self s.pos _ _
      · rw [lineOf_cons hByte] at hGrow ⊢
        rcases readStep_byte hBlock (by rw [hHead]; exact hByte)
            (hGrow 0 (Nat.succ_pos _)) with
          ⟨s', hStep, hBlock', hTail, hStr, hPos⟩
        have hRest : lineEnd ∈ file := by
          rcases List.mem_cons.mp hNewline with hSame | hRest
          · exact absurd hSame.symm hByte
          · exact hRest
        rcases ih (by rw [hTail, hFile]; rfl) hBlock' hRest
            (by
              intro i hi
              rw [hPos, Nat.add_right_comm, Nat.add_assoc]
              exact hGrow (i + 1) (Nat.succ_lt_succ hi)) with
          ⟨str, hLoop, hKept, hLine, hZero⟩
        rw [hPos] at hKept hLine hZero
        rw [hStr, hHead] at hKept
        rw [List.length_cons, readLoop, hStep]
        refine ⟨str, hLoop, ?_, ?_, ?_⟩
        · intro i hi
          rw [hKept i (Nat.lt_succ_of_lt hi),
            Function.update_of_ne (Nat.ne_of_lt hi)]
        · intro i c hGet
          cases i with
          | zero =>
              rw [List.getElem?_cons_zero] at hGet
              cases hGet
              rw [Nat.add_zero, hKept s.pos (Nat.lt_succ_self _),
                Function.update_self]
          | succ i =>
              rw [List.getElem?_cons_succ] at hGet
              rw [Nat.add_comm i 1, ← Nat.add_assoc]
              exact hLine i c hGet
        · rw [Nat.add_comm _ 1, ← Nat.add_assoc]
          exact hZero

/-
  A loop that returned a string saw a newline, and its block
  was never moved on the way.
-/
theorem readLoop_returned
    {alloc : Allocator}
    {n : Nat}
    {s : ReadState}
    {str : Nat → Byte}
    (hLoop : readLoop alloc n s = .returned str) :
    s.live = true ∧
      lineEnd ∈ s.file ∧
      ∀ i, i < (lineOf s.file).length →
        (s.pos + i) % buffer = buffer - 1 →
        alloc.grow (s.pos + i) = .inPlace := by
  induction n generalizing s with
  | zero => cases hLoop
  | succ n ih =>
      rw [readLoop] at hLoop
      cases hStep : readStep alloc s with
      | running s' =>
          rw [hStep] at hLoop
          rcases ih hLoop with ⟨hLive', hNewline, hGrow⟩
          rcases readStep_running hStep with
            ⟨hLive, hByte, hTail, hPos, hInPlace⟩
          rw [hTail, hPos] at hGrow
          rw [hTail] at hNewline
          refine ⟨hLive, List.mem_of_mem_tail hNewline, ?_⟩
          intro i hi hFull
          cases hFile : s.file with
          | nil =>
              rw [hFile] at hNewline
              exact absurd hNewline List.not_mem_nil
          | cons b file =>
              rw [hFile] at hByte hGrow hi
              rw [lineOf_cons (show b ≠ lineEnd from hByte),
                List.length_cons] at hi
              cases i with
              | zero => exact hInPlace hLive' hFull
              | succ i =>
                  rw [Nat.add_comm i 1, ← Nat.add_assoc]
                    at hFull ⊢
                  exact hGrow i (Nat.lt_of_succ_lt_succ hi) hFull
      | returned str' =>
          rcases readStep_returned hStep with ⟨hLive, hEnd⟩
          refine ⟨hLive, ?_, ?_⟩
          · cases hFile : s.file with
            | nil =>
                rw [hFile] at hEnd
                exact absurd hEnd (by decide)
            | cons b file =>
                rw [hFile] at hEnd
                rw [show b = lineEnd from hEnd]
                exact List.mem_cons_self
          · intro i hi
            cases hFile : s.file with
            | nil =>
                rw [hFile] at hi
                exact absurd hi (Nat.not_lt_zero i)
            | cons b file =>
                rw [hFile] at hEnd hi
                rw [show b = lineEnd from hEnd, lineOf_lineEnd]
                  at hi
                exact absurd hi (Nat.not_lt_zero i)
      | null =>
          rw [hStep] at hLoop
          cases hLoop
      | undefined =>
          rw [hStep] at hLoop
          cases hLoop

end BtPeer

------------------------------------------------------------
-- Reading the Line
------------------------------------------------------------

namespace BtPeer

/-
  The block grows in place all along a line exactly when the
  allocator does so and the size stays an `int`.
-/
theorem grow_inPlace_iff
    (alloc : Allocator)
    (len : Nat) :
    (∀ pos, pos < len → pos % buffer = buffer - 1 →
        alloc.grow pos = .inPlace) ↔
      len ≤ 2147483391 ∧
        ∀ pos, pos < len → pos % buffer = buffer - 1 →
          alloc.realloc pos = .inPlace := by
  have hInt :
      ∀ pos : Nat, pos < 2147483391 →
        alloc.grow pos = alloc.realloc pos := by
    intro pos hPos
    unfold Allocator.grow buffer
    rw [toInt32_eq_self (by omega) (by omega),
      if_neg (by omega)]
  constructor
  · intro hGrow
    have hLen : len ≤ 2147483391 := by
      -- at this position the size is 2 ^ 31
      by_contra hLong
      have hLast :=
        hGrow 2147483391 (by omega) (by decide)
      rw [Allocator.grow, if_pos (by decide)] at hLast
      cases hLast
    refine ⟨hLen, ?_⟩
    intro pos hPos hFull
    rw [← hInt pos (by omega)]
    exact hGrow pos hPos hFull
  · rintro ⟨hLen, hRealloc⟩ pos hPos hFull
    rw [hInt pos (by omega)]
    exact hRealloc pos hPos hFull

theorem readsLine_of_lineReadable
    {alloc : Allocator}
    {file : List Byte}
    (hLine : LineReadable alloc file) :
    ReadsLine alloc file := by
  have hGrow :=
    (grow_inPlace_iff alloc (lineOf file).length).mpr
      ⟨hLine.length, hLine.realloc⟩
  rcases readLoop_line file
      (show (readStart alloc file).file = file from rfl)
      (inBlock_readStart hLine.malloc file) hLine.newline
      (by
        intro i hi
        rw [readStart_pos_add]
        exact hGrow i hi) with
    ⟨str, hLoop, _, hBytes, hZero⟩
  simp only [readStart_pos_add] at hBytes hZero
  exact ⟨_, str, hLoop, hBytes, hZero⟩

theorem lineReadable_of_readsLine
    {alloc : Allocator}
    {file : List Byte}
    (hReads : ReadsLine alloc file) :
    LineReadable alloc file := by
  rcases hReads with ⟨n, str, hString, _⟩
  rcases readLoop_returned hString with
    ⟨hMalloc, hNewline, hGrow⟩
  rcases (grow_inPlace_iff alloc (lineOf file).length).mp
      (by
        intro pos hPos
        have hAt := hGrow pos hPos
        rw [readStart_pos_add] at hAt
        exact hAt) with
    ⟨hLength, hRealloc⟩
  exact ⟨hNewline, hLength, hMalloc, hRealloc⟩

/-
  `readString` returns the line of the file exactly when the
  file has a newline, the line is short enough for the size,
  and the block never moves.
-/
theorem readString_line_iff
    (alloc : Allocator)
    (file : List Byte) :
    ReadsLine alloc file ↔ LineReadable alloc file :=
  ⟨lineReadable_of_readsLine, readsLine_of_lineReadable⟩

/-
  On an empty file no number of steps gives a string, though
  every allocation succeeds in place.
-/
theorem readString_empty_file :
    ¬ ReadsLine ⟨true, fun _ => .inPlace⟩ [] := by
  intro hReads
  exact List.not_mem_nil
    (lineReadable_of_readsLine hReads).newline

end BtPeer
