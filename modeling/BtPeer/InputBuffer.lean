import BtPeer.Basic
import BtPeer.Library.Lines
import BtPeer.Library.Run
import BtPeer.Library.Terminated
import Mathlib.Data.List.GetD

/-
  The buffer for user input (input_buffer.c).

  What was read is appended, the lines are taken from the
  front as C strings, and the rest is moved there. The cells
  behind the moved part keep what they held.

  Key definitions include:
    * `UserIobuf`
    * `processUserInput`
    * `InputRun.step`
    * `InputRun.Split`

  Key theorems include:
    * `lineLoop_spec`
    * `readInto_text`
    * `InputRun.step_split_iff`
    * `input_split_iff`
    * `input_stale_line`
-/

------------------------------------------------------------
-- The Buffer
------------------------------------------------------------

namespace BtPeer

open TerminatedString

/- `USERBUF_SIZE`; one more byte is allocated. -/
def userbufSize : Nat := 8191

theorem userbufSize_eq : userbufSize = 8191 := rfl

/- The terminator and the end of a line. -/
def nul : Char := Char.ofNat 0

def newline : Char := Char.ofNat 10

theorem newline_ne_nul : newline ≠ nul := by
  decide

/-
  `struct user_iobuf`. Nothing is ever written to the last
  byte, which is zero from the start.
-/
structure UserIobuf where
  buf : Nat → Char
  cur : Word
  last : buf userbufSize = nul

/- `create_userbuf` -/
def createUserbuf : UserIobuf where
  buf := fun _ => nul
  cur := 0
  last := rfl

namespace UserIobuf

/- The buffer as a C string. -/
@[irreducible] def text (u : UserIobuf) : CString :=
  stringAt nul u.buf (userbufSize + 1)

/-
  `read` of at most the free bytes. `block` is what the
  descriptor has to offer.
-/
def readInto
    (u : UserIobuf)
    (block : List Char) : UserIobuf :=
  let got := block.take (userbufSize - u.cur.toNat)
  { buf :=
      ByteMemory.memcpy u.buf u.cur.toNat
        (fun i => got.getD i nul) got.length
    cur := u.cur + BitVec.ofNat 32 got.length
    last := by
      rw [ByteMemory.memcpy_outside]
      · exact u.last
      · have hLen :
            got.length ≤ userbufSize - u.cur.toNat :=
          List.length_take_le _ _
        omega }

/- `*ret` set to zero. -/
def terminate
    (u : UserIobuf)
    (r : Nat) : UserIobuf :=
  { u with
    buf := Function.update u.buf r nul
    last := by
      by_cases hSame : userbufSize = r
      · rw [hSame]
        exact Function.update_self r nul u.buf
      · rw [Function.update_of_ne hSame]
        exact u.last }

/- The `memmove` behind a line that ends at index `r`. -/
def shift
    (u : UserIobuf)
    (r : Nat) : UserIobuf where
  buf :=
    ByteMemory.memcpy u.buf 0 (fun i => u.buf (r + 1 + i))
      (userbufSize - r)
  cur := u.cur - BitVec.ofNat 32 (r + 1)
  last := by
    rw [ByteMemory.memcpy_outside]
    · exact u.last
    · omega

end UserIobuf

/- `strchr` for a character other than the terminator. -/
def strchr
    (s : CString)
    (c : Char) : Option Nat :=
  s.findIdx? (fun d => d = c)

/-
  The loop over the lines in the buffer, and the lines handed
  to `handle_line`. It runs at most once for each byte.
-/
def lineLoop : Nat → UserIobuf → UserIobuf × List CString
| 0, u => (u, [])
| k + 1, u =>
    match strchr u.text newline with
    | none => (u, [])
    | some r =>
        let cut := u.terminate r
        let rest := lineLoop k (cut.shift r)
        (rest.1, cut.text :: rest.2)

/-
  `process_user_input`, none when it exits. `block` is empty
  when nothing was read.
-/
def processUserInput
    (u : UserIobuf)
    (block : List Char) :
    Option (UserIobuf × List CString) :=
  if userbufSize - 1 ≤ u.cur.toNat then none
  else some (lineLoop (userbufSize + 1) (u.readInto block))

end BtPeer

------------------------------------------------------------
-- Taking Lines
------------------------------------------------------------

namespace BtPeer

open TerminatedString
open LineSplitting

namespace UserIobuf

/- The buffer holds a string, of at most its size. -/
theorem spells
    (u : UserIobuf) :
    Spells nul u.buf u.text ∧
      u.text.length ≤ userbufSize := by
  unfold text
  exact Spells.of_ended (Nat.lt_succ_self userbufSize) u.last

theorem text_eq
    {u : UserIobuf}
    {s : CString}
    (hSpells : Spells nul u.buf s) :
    u.text = s :=
  u.spells.1.unique hSpells

end UserIobuf

/- Where the first line of a string ends. -/
theorem strchr_some
    {s : CString}
    {c : Char}
    {r : Nat}
    (hFound : strchr s c = some r) :
    ∃ line rest,
      s = line ++ c :: rest ∧ line.length = r ∧ c ∉ line := by
  rcases List.findIdx?_eq_some_iff_getElem.mp hFound with
    ⟨hr, hAt, hBefore⟩
  refine ⟨s.take r, s.drop (r + 1), ?_, ?_, ?_⟩
  · have hChar : s[r] = c := by simpa using hAt
    rw [← hChar, ← List.drop_eq_getElem_cons hr,
      List.take_append_drop]
  · exact List.length_take_of_le (Nat.le_of_lt hr)
  · intro hMem
    rcases List.getElem_of_mem hMem with ⟨i, hi, hEq⟩
    rw [List.length_take] at hi
    rw [List.getElem_take] at hEq
    have hNot := hBefore i (by omega)
    simp [hEq] at hNot

theorem strchr_none
    {s : CString}
    {c : Char}
    (hNone : strchr s c = none) :
    c ∉ s := by
  intro hMem
  have hAll := List.findIdx?_eq_none_iff.mp hNone c hMem
  simp at hAll

theorem strchr_line
    {line : CString}
    {c : Char}
    (hLine : c ∉ line)
    (rest : CString) :
    strchr (line ++ c :: rest) c = some line.length := by
  apply List.findIdx?_eq_some_iff_getElem.mpr
  refine ⟨by simp, by simp, ?_⟩
  intro i hi
  rw [List.getElem_append_left hi, decide_eq_true_eq]
  rintro rfl
  exact hLine (List.getElem_mem hi)

/- A line is cut off, and what stands behind it is moved. -/
theorem UserIobuf.shift_text
    {u : UserIobuf}
    {line rest : CString}
    (hText : u.text = line ++ newline :: rest) :
    (u.terminate line.length).text = line ∧
      ((u.terminate line.length).shift
        line.length).text = rest := by
  rcases u.spells with ⟨hSpells, hLength⟩
  rw [hText] at hSpells hLength
  rw [List.length_append, List.length_cons] at hLength
  have hCut : Spells nul (u.terminate line.length).buf line :=
    hSpells.cut
  refine ⟨UserIobuf.text_eq hCut, UserIobuf.text_eq ?_⟩
  have hBehind :
      Spells nul
        (fun i => u.buf ((line ++ [newline]).length + i))
        rest := by
    apply Spells.drop
    rwa [List.append_assoc]
  apply hBehind.congr
  intro i hi
  -- the terminator of the rest is moved as well
  have hInside :
      i < userbufSize - line.length := by
    omega
  have hMoved :=
    @ByteMemory.memcpy_inside _ (u.terminate line.length).buf
      (fun j =>
        (u.terminate line.length).buf (line.length + 1 + j))
      0 _ i hInside
  rw [Nat.zero_add] at hMoved
  have hIndex : line.length + 1 + i ≠ line.length := by
    omega
  refine hMoved.trans ?_
  rw [List.length_append, List.length_singleton]
  exact Function.update_of_ne hIndex nul u.buf

theorem lineLoop_none
    {u : UserIobuf}
    (hNone : strchr u.text newline = none)
    (k : Nat) :
    lineLoop (k + 1) u = (u, []) := by
  rw [lineLoop, hNone]

theorem lineLoop_some
    {u : UserIobuf}
    {r : Nat}
    (hFound : strchr u.text newline = some r)
    (k : Nat) :
    lineLoop (k + 1) u =
      ((lineLoop k ((u.terminate r).shift r)).1,
        (u.terminate r).text ::
          (lineLoop k ((u.terminate r).shift r)).2) := by
  rw [lineLoop, hFound]

/-
  The loop hands out the lines of the string in the buffer
  and leaves its rest, whatever `cur` is.
-/
theorem lineLoop_spec
    {k : Nat}
    {u : UserIobuf}
    (hFuel : u.text.length < k) :
    (lineLoop k u).2 = terminated newline u.text ∧
      (lineLoop k u).1.text = unterminated newline u.text ∧
      (lineLoop k u).1.cur =
        u.cur -
          BitVec.ofNat 32
            (u.text.length -
              (unterminated newline u.text).length) := by
  induction k generalizing u with
  | zero => exact absurd hFuel (Nat.not_lt_zero _)
  | succ k ih =>
      cases hFound : strchr u.text newline with
      | none =>
          have hNone := strchr_none hFound
          rw [lineLoop_none hFound, terminated_of_not_mem hNone,
            unterminated_of_not_mem hNone, Nat.sub_self]
          refine ⟨rfl, rfl, ?_⟩
          exact (BitVec.sub_zero u.cur).symm
      | some r =>
          rcases strchr_some hFound with
            ⟨line, rest, hText, rfl, hLine⟩
          rcases UserIobuf.shift_text hText with
            ⟨hCut, hRest⟩
          have hLength :
              u.text.length =
                line.length + 1 + rest.length := by
            rw [hText, List.length_append, List.length_cons]
            omega
          have hFuel' :
              ((u.terminate line.length).shift
                line.length).text.length < k := by
            rw [hRest]
            omega
          rcases ih hFuel' with ⟨hLines, hLeft, hCur⟩
          rw [hRest] at hLines hLeft hCur
          have hShorter :
              (unterminated newline rest).length ≤
                rest.length :=
            unterminated_length_le rest
          rw [lineLoop_some hFound, hText,
            terminated_line hLine, unterminated_append_cons,
            ← hText]
          refine ⟨?_, hLeft, ?_⟩
          · rw [hCut, hLines]
          · rw [hCur]
            have hSum :
                u.text.length -
                    (unterminated newline rest).length =
                  line.length + 1 +
                    (rest.length -
                      (unterminated newline rest).length) := by
              omega
            rw [hSum, BitVec.ofNat_add]
            exact BitVec.sub_sub _ _ _

end BtPeer

------------------------------------------------------------
-- Reading
------------------------------------------------------------

namespace BtPeer

open TerminatedString

namespace UserIobuf

/-
  A result of `read` before the buffer is full: no terminator
  in it, and at most the bytes that were asked for.
-/
structure Fits
    (u : UserIobuf)
    (block : List Char) : Prop where
  room : u.cur.toNat < userbufSize - 1
  size : block.length ≤ userbufSize - u.cur.toNat
  text : nul ∉ block

variable {u : UserIobuf}
variable {block : List Char}

theorem Fits.take_eq
    (hFits : u.Fits block) :
    block.take (userbufSize - u.cur.toNat) = block :=
  List.take_of_length_le hFits.size

theorem readInto_cur
    (hFits : u.Fits block) :
    (u.readInto block).cur.toNat =
      u.cur.toNat + block.length := by
  have hRoom := hFits.room
  have hSize := hFits.size
  simp only [userbufSize_eq] at hRoom hSize
  simp only [readInto, hFits.take_eq, BitVec.toNat_add,
    BitVec.toNat_ofNat]
  omega

/- The cells behind `cur` take the block, and no others. -/
theorem readInto_before
    (hFits : u.Fits block)
    {i : Nat}
    (hi : i < u.cur.toNat ∨ u.cur.toNat + block.length ≤ i) :
    (u.readInto block).buf i = u.buf i := by
  simp only [readInto, hFits.take_eq]
  exact ByteMemory.memcpy_outside _ _ hi

theorem readInto_block
    (hFits : u.Fits block)
    {i : Nat}
    (hi : i < block.length) :
    (u.readInto block).buf (u.cur.toNat + i) = block[i] := by
  simp only [readInto, hFits.take_eq]
  rw [ByteMemory.memcpy_inside _ _ hi]
  exact List.getD_eq_getElem _ _ hi

/-
  The string in the buffer is followed by the block, and that
  by what is left over behind the block, if anything is.
-/
theorem readInto_text
    (hCur : u.text.length = u.cur.toNat)
    (hFits : u.Fits block) :
    ∃ stale,
      (u.readInto block).text = u.text ++ (block ++ stale) ∧
        (stale = [] ↔
          u.buf (u.cur.toNat + block.length) = nul) := by
  have hSize := hFits.size
  have hRoom := hFits.room
  rcases u.spells with ⟨hSpells, _⟩
  have hBehind :=
    @Spells.of_ended _ _ nul
      (fun i => u.buf (u.cur.toNat + block.length + i))
      (userbufSize + 1)
      (userbufSize - (u.cur.toNat + block.length)) (by omega)
      (by
        have hLast :
            u.cur.toNat + block.length +
                (userbufSize -
                  (u.cur.toNat + block.length)) =
              userbufSize := by
          omega
        rw [hLast]
        exact u.last)
  refine
    ⟨stringAt nul
      (fun i => u.buf (u.cur.toNat + block.length + i))
      (userbufSize + 1), UserIobuf.text_eq ?_, ?_⟩
  · apply Spells.append
    · intro i hi
      rw [readInto_before hFits (.inl (by omega))]
      exact hSpells.cells i hi
    · exact hSpells.text
    · apply Spells.append
      · intro i hi
        rw [hCur]
        exact readInto_block hFits hi
      · exact hFits.text
      · apply hBehind.1.congr
        intro i _
        rw [hCur, ← Nat.add_assoc]
        exact readInto_before hFits (.inr (by omega))
  · rw [stringAt_succ]
    by_cases hEnded :
        u.buf (u.cur.toNat + block.length + 0) = nul
    · rw [if_pos hEnded]
      exact ⟨fun _ => hEnded, fun _ => rfl⟩
    · rw [if_neg hEnded]
      constructor
      · intro hNil
        cases hNil
      · intro hNul
        exact absurd hNul hEnded

end UserIobuf

end BtPeer

------------------------------------------------------------
-- All Calls
------------------------------------------------------------

namespace BtPeer

open EventMachine
open LineSplitting

/-
  The buffer, with all that was read and all lines that were
  handed out so far.
-/
structure InputRun where
  iobuf : UserIobuf
  input : List Char
  lines : List CString

namespace InputRun

/- Nothing has been read. -/
def start : InputRun := ⟨createUserbuf, [], []⟩

/- One call; the program ends when the buffer is full. -/
def step
    (r : InputRun)
    (block : List Char) : InputRun :=
  match processUserInput r.iobuf block with
  | none => r
  | some (u, lines) =>
      ⟨u, r.input ++ block, r.lines ++ lines⟩

/-
  The lines of the input were handed out, in order and once
  each, and the buffer holds the rest.
-/
structure Split
    (r : InputRun) : Prop where
  lines : r.lines = terminated newline r.input
  rest : r.iobuf.text = unterminated newline r.input
  cur :
    r.iobuf.cur.toNat =
      (unterminated newline r.input).length

/- The byte behind the bytes that the next call reads is 0. -/
def Clean
    (r : InputRun)
    (block : List Char) : Prop :=
  r.iobuf.buf (r.iobuf.cur.toNat + block.length) = nul

theorem start_split : start.Split where
  lines := rfl
  rest := by
    apply UserIobuf.text_eq
    refine ⟨?_, List.not_mem_nil, rfl⟩
    intro i hi
    cases hi
  cur := rfl

/- A call before the buffer is full. -/
theorem step_eq
    {r : InputRun}
    {block : List Char}
    (hFits : r.iobuf.Fits block) :
    r.step block =
      (let out :=
        lineLoop (userbufSize + 1) (r.iobuf.readInto block)
       ⟨out.1, r.input ++ block, r.lines ++ out.2⟩) := by
  simp only [step, processUserInput,
    if_neg (Nat.not_le.mpr hFits.room)]

theorem step_iobuf
    {r : InputRun}
    {block : List Char}
    (hFits : r.iobuf.Fits block) :
    (r.step block).iobuf =
      (lineLoop (userbufSize + 1)
        (r.iobuf.readInto block)).1 := by
  rw [step_eq hFits]

/- What one call does. -/
theorem step_spec
    {r : InputRun}
    {block : List Char}
    (hFits : r.iobuf.Fits block) :
    let text := (r.iobuf.readInto block).text
    (r.step block).input = r.input ++ block ∧
      (r.step block).lines =
        r.lines ++ terminated newline text ∧
      (r.step block).iobuf.text = unterminated newline text ∧
      (r.step block).iobuf.cur =
        (r.iobuf.readInto block).cur -
          BitVec.ofNat 32
            (text.length -
              (unterminated newline text).length) := by
  have hLength := (r.iobuf.readInto block).spells.2
  rcases lineLoop_spec (Nat.lt_succ_of_le hLength) with
    ⟨hLines, hText, hCur⟩
  rw [step_eq hFits]
  exact ⟨rfl, congrArg (r.lines ++ ·) hLines, hText, hCur⟩

/- A call splits the input exactly when no byte is stale. -/
theorem step_split_iff
    {r : InputRun}
    {block : List Char}
    (hSplit : r.Split)
    (hFits : r.iobuf.Fits block) :
    (r.step block).Split ↔ r.Clean block := by
  rcases step_spec hFits with ⟨hInput, hLines, hText, hCur⟩
  have hLength :
      r.iobuf.text.length = r.iobuf.cur.toNat := by
    rw [hSplit.rest, hSplit.cur]
  rcases UserIobuf.readInto_text hLength hFits with
    ⟨stale, hRead, hStale⟩
  unfold Clean
  rw [← hStale]
  rw [hRead, hSplit.rest] at hLines hText hCur
  constructor
  · intro hNext
    -- the pieces of the text are those without the stale bytes
    have hNextLines := hNext.lines
    have hNextRest := hNext.rest
    rw [hLines, hInput, hSplit.lines,
      terminated_append r.input block,
      List.append_cancel_left_eq] at hNextLines
    rw [hText, hInput, unterminated_append r.input]
      at hNextRest
    have hSame := eq_of_pieces hNextLines hNextRest
    rw [← List.append_assoc] at hSame
    exact List.append_right_eq_self.mp hSame
  · rintro rfl
    rw [List.append_nil] at hRead hLines hText hCur
    have hRest :
        (r.step block).iobuf.text =
          unterminated newline (r.step block).input := by
      rw [hText, hInput, ← unterminated_append]
    refine ⟨?_, hRest, ?_⟩
    · rw [hLines, hInput, hSplit.lines, ← terminated_append]
    · have hAll := UserIobuf.readInto_cur hFits
      have hShorter :=
        @unterminated_length_le _ _ newline
          (unterminated newline r.input ++ block)
      have hBound := (r.iobuf.readInto block).cur.isLt
      rw [hInput, unterminated_append, hCur]
      rw [List.length_append, ← hSplit.cur] at hShorter ⊢
      bv_omega

end InputRun

/-
  In a run of calls that read what they asked for, the input
  is split into its lines after every call exactly when every
  call finds a zero byte behind the bytes it reads.
-/
theorem input_split_iff
    {blocks : List (List Char)}
    (hFits :
      Along InputRun.step (fun r block => r.iobuf.Fits block)
        InputRun.start blocks) :
    (∀ read, read <+: blocks →
        (run InputRun.step InputRun.start read).Split) ↔
      Along InputRun.step InputRun.Clean InputRun.start
        blocks :=
  throughout_iff_along InputRun.Split
    (fun _ _ hSplit hOk => InputRun.step_split_iff hSplit hOk)
    InputRun.start_split hFits

/- One short line, read in one call. -/
theorem input_split_line :
    (run InputRun.step InputRun.start
      [['a', newline]]).Split := by
  have hFits :
      Along InputRun.step (fun r block => r.iobuf.Fits block)
        InputRun.start [['a', newline]] :=
    ⟨⟨by decide, by decide, by decide⟩, trivial⟩
  exact
    (input_split_iff hFits).mpr ⟨rfl, trivial⟩ _
      List.prefix_rfl

/- The text of the two lines of a full read. -/
def fullRead : List Char :=
  'a' :: newline :: (List.replicate 8188 'b' ++ [newline])

theorem fullRead_length : fullRead.length = 8191 := by
  simp only [fullRead, List.length_cons, List.length_append,
    List.length_replicate, List.length_nil]

theorem fullRead_fits :
    InputRun.start.iobuf.Fits fullRead where
  room := by decide
  size := Nat.le_of_eq fullRead_length
  text := by
    simp only [fullRead, List.mem_cons, List.mem_append,
      List.mem_replicate, List.not_mem_nil, or_false]
    decide

theorem newline_not_mem_replicate
    (n : Nat) :
    newline ∉ List.replicate n 'b' := by
  intro hMem
  exact absurd (List.eq_of_mem_replicate hMem) (by decide)

/- The buffer behind the first line. -/
theorem lineLoop_line
    {u : UserIobuf}
    {line rest : CString}
    (hText : u.text = line ++ newline :: rest)
    (hLine : newline ∉ line)
    (k : Nat) :
    (lineLoop (k + 1) u).1 =
      (lineLoop k
        ((u.terminate line.length).shift line.length)).1 := by
  have hFound : strchr u.text newline = some line.length := by
    rw [hText]
    exact strchr_line hLine rest
  rw [lineLoop_some hFound]

/- A cell that the `memmove` behind a line does not write. -/
theorem UserIobuf.shift_behind
    (u : UserIobuf)
    {r i : Nat}
    (hi : userbufSize - r ≤ i)
    (hLater : r < i) :
    ((u.terminate r).shift r).buf i = u.buf i := by
  have hKept :=
    @ByteMemory.memcpy_outside _ (u.terminate r).buf
      (fun j => (u.terminate r).buf (r + 1 + j)) 0
      (userbufSize - r) i (by omega)
  have hIndex : i ≠ r := by omega
  refine hKept.trans ?_
  exact Function.update_of_ne hIndex nul u.buf

/- A cell that it does write. -/
theorem UserIobuf.shift_front
    (u : UserIobuf)
    {r i : Nat}
    (hi : i < userbufSize - r) :
    ((u.terminate r).shift r).buf i = u.buf (r + 1 + i) := by
  have hMoved :=
    @ByteMemory.memcpy_inside _ (u.terminate r).buf
      (fun j => (u.terminate r).buf (r + 1 + j)) 0 _ i hi
  rw [Nat.zero_add] at hMoved
  have hIndex : r + 1 + i ≠ r := by omega
  refine hMoved.trans ?_
  exact Function.update_of_ne hIndex nul u.buf

/-
  Two lines that fill the buffer: the end of the second one
  is not moved by the first `memmove`, and by the second one
  it comes to stand behind the terminator.
-/
theorem lineLoop_two_lines
    {u : UserIobuf}
    {first second : CString}
    (hText :
      u.text =
        first ++ newline :: (second ++ newline :: []))
    (hFirst : newline ∉ first)
    (hSecond : newline ∉ second)
    (hFull : first.length + 1 + second.length + 1 = userbufSize)
    (hLong : 0 < first.length)
    {k : Nat}
    (hFuel : 3 ≤ k) :
    (lineLoop k u).1.buf first.length =
      u.buf (userbufSize - 1) := by
  rcases Nat.exists_eq_add_of_le hFuel with ⟨j, rfl⟩
  have hMoved := (UserIobuf.shift_text hText).2
  have hEmpty := (UserIobuf.shift_text hMoved).2
  have hDone :
      strchr
        ((((u.terminate first.length).shift
          first.length).terminate second.length).shift
            second.length).text newline = none := by
    rw [hEmpty]
    rfl
  have hSteps : 3 + j = j + 1 + 1 + 1 := by omega
  rw [hSteps, lineLoop_line hText hFirst,
    lineLoop_line hMoved hSecond, lineLoop_none hDone]
  dsimp only
  rw [UserIobuf.shift_front _ (by omega),
    UserIobuf.shift_behind _ (by omega) (by omega)]
  congr 1
  omega

/-
  Behind the two lines of a full read the buffer is empty,
  and its second byte is the end of a line.
-/
theorem fullRead_stale :
    (InputRun.start.step fullRead).iobuf.cur.toNat = 0 ∧
      (InputRun.start.step fullRead).iobuf.buf 1 =
        newline := by
  have hLines :
      fullRead =
        ['a'] ++ newline ::
          (List.replicate 8188 'b' ++ newline :: []) :=
    rfl
  have hSplit :
      (InputRun.start.step fullRead).Split :=
    (InputRun.step_split_iff InputRun.start_split
      fullRead_fits).mpr rfl
  constructor
  · have hRest :
        unterminated newline fullRead = [] := by
      rw [hLines, unterminated_append_cons,
        unterminated_append_cons]
      exact unterminated_of_not_mem List.not_mem_nil
    rw [hSplit.cur, (InputRun.step_spec fullRead_fits).1]
    exact congrArg List.length hRest
  · have hEmpty : InputRun.start.iobuf.text = [] :=
      InputRun.start_split.rest
    rcases UserIobuf.readInto_text
        (by rw [hEmpty]; rfl) fullRead_fits with
      ⟨stale, hRead, hStale⟩
    rw [hEmpty, hStale.mpr rfl, List.append_nil,
      List.nil_append] at hRead
    have hCell :=
      lineLoop_two_lines (hRead.trans hLines) (by decide)
        (newline_not_mem_replicate 8188)
        (by rw [List.length_replicate]; rfl) (by decide)
        (by decide : 3 ≤ userbufSize + 1)
    have hShort : 8190 < fullRead.length := by
      rw [fullRead_length]
      omega
    have hLast :=
      UserIobuf.readInto_block fullRead_fits hShort
    have hIndex :
        InputRun.start.iobuf.cur.toNat + 8190 =
          userbufSize - 1 := by
      decide
    have hChar : fullRead[8190]? = some newline := by
      have hConcat :
          fullRead =
            ('a' :: newline :: List.replicate 8188 'b') ++
              [newline] := by
        simp only [fullRead, List.cons_append]
      have hPrefix :
          8190 =
            ('a' :: newline ::
              List.replicate 8188 'b').length := by
        rw [List.length_cons, List.length_cons,
          List.length_replicate]
      rw [hConcat, hPrefix]
      exact List.getElem?_concat_length
    rw [List.getElem?_eq_getElem hShort,
      Option.some.injEq] at hChar
    rw [hIndex, hChar] at hLast
    rw [List.length_singleton, hLast] at hCell
    rw [InputRun.step_iobuf fullRead_fits]
    exact hCell

/-
  A byte that comes after such a read completes a line that
  was never typed.
-/
theorem input_stale_line :
    ¬ ∀ blocks : List (List Char),
        Along InputRun.step
          (fun r block => r.iobuf.Fits block)
          InputRun.start blocks →
          ∀ read, read <+: blocks →
            (run InputRun.step InputRun.start read).Split := by
  intro hAll
  rcases fullRead_stale with ⟨hCur, hStale⟩
  have hFits :
      Along InputRun.step (fun r block => r.iobuf.Fits block)
        InputRun.start [fullRead, ['c']] := by
    refine ⟨fullRead_fits, ⟨?_, ?_, by decide⟩, trivial⟩
    · rw [hCur]
      decide
    · rw [hCur]
      decide
  have hFirst := (hAll _ hFits) [fullRead] (by simp)
  have hBoth :=
    (hAll _ hFits) [fullRead, ['c']] List.prefix_rfl
  rw [run_cons, run_nil] at hFirst
  rw [run_cons, run_cons, run_nil] at hBoth
  have hClean :=
    (InputRun.step_split_iff hFirst hFits.2.1).mp hBoth
  have hIndex : 0 + ['c'].length = 1 := rfl
  rw [InputRun.Clean, hCur, hIndex] at hClean
  exact newline_ne_nul (hStale.symm.trans hClean)

end BtPeer
