import BtPeer.Chunk
import Mathlib.Data.List.TakeWhile

/-
  What a chunk file says, and what `parse_chunk` takes from
  it (chunklist.c).

  The loop of `parse_chunk` stops at EOF only, so a text it
  cannot convert makes it go on over entries that keep their
  old contents, up to the end of the array.

  Key definitions include:
    * `ScansPair`
    * `ScansPairs`
    * `ParsedFaithfully`
    * `OnlyPairs`

  Key theorems include:
    * `scansPair_iff`
    * `parseChunkLoop_pairs`
    * `parseChunk_faithful_iff`
-/

------------------------------------------------------------
-- Cutting a Text at the End of a Class of Characters
------------------------------------------------------------

namespace BtPeer

/- The text is empty or begins outside the class. -/
def StopsClass
    (p : Char → Bool)
    (text : List Char) : Prop :=
  ∀ c cs, text = c :: cs → p c = false

theorem stopsClass_cons
    {p : Char → Bool}
    {c : Char}
    (hHead : p c = false)
    (cs : List Char) :
    StopsClass p (c :: cs) := by
  intro d ds hText
  cases hText
  exact hHead

theorem takeWhile_stops
    {p : Char → Bool}
    {word rest : List Char}
    (hWord : ∀ c ∈ word, p c = true)
    (hStops : StopsClass p rest) :
    (word ++ rest).takeWhile p = word := by
  rw [List.takeWhile_append_of_pos hWord]
  cases rest with
  | nil => simp
  | cons c cs => simp [hStops c cs rfl]

theorem dropWhile_stops
    {p : Char → Bool}
    {word rest : List Char}
    (hWord : ∀ c ∈ word, p c = true)
    (hStops : StopsClass p rest) :
    (word ++ rest).dropWhile p = rest := by
  rw [List.dropWhile_append_of_pos hWord]
  cases rest with
  | nil => rfl
  | cons c cs => simp [hStops c cs rfl]

/- A digit is no blank and no sign. -/
theorem isDigit_plain
    {c : Char}
    (hDigit : c.isDigit = true) :
    isSpace c = false ∧ c ≠ '-' ∧ c ≠ '+' := by
  have hRange : 48 ≤ c.toNat ∧ c.toNat ≤ 57 := by
    simp only [Char.isDigit, Bool.and_eq_true,
      decide_eq_true_eq, ge_iff_le,
      UInt32.le_iff_toNat_le] at hDigit
    exact hDigit
  refine ⟨?_, ?_, ?_⟩
  · simp only [isSpace, Bool.or_eq_false_iff,
      decide_eq_false_iff_not, Bool.and_eq_false_iff]
    omega
  · rintro rfl
    exact absurd hRange (by decide)
  · rintro rfl
    exact absurd hRange (by decide)

end BtPeer

------------------------------------------------------------
-- Integer and Token Pairs
------------------------------------------------------------

namespace BtPeer

/-
  The text begins with an integer and a token, and `rest` is
  what follows the token. The integer may touch the token
  when that does not begin with a digit.
-/
inductive ScansPair :
    List Char → Int → CString → List Char → Prop
| intro
    (blanks sign digits gap token rest : List Char)
    (hBlanks : ∀ c ∈ blanks, isSpace c = true)
    (hSign : sign = [] ∨ sign = ['-'] ∨ sign = ['+'])
    (hDigits : digits ≠ [])
    (hDigit : ∀ c ∈ digits, c.isDigit = true)
    (hGap : ∀ c ∈ gap, isSpace c = true)
    (hApart : gap = [] → StopsClass Char.isDigit token)
    (hToken : token ≠ [])
    (hText : ∀ c ∈ token, isSpace c = false)
    (hEnd : StopsClass (! isSpace ·) rest) :
    ScansPair
      (blanks ++
        (sign ++ (digits ++ (gap ++ (token ++ rest)))))
      (scanInt (sign = ['-']) digits) token rest

/- The pairs that stand one after another, and the rest. -/
inductive ScansPairs :
    List Char → List (Int × CString) → List Char → Prop
| nil (text : List Char) : ScansPairs text [] text
| cons
    {text mid left : List Char}
    {id : Int}
    {sha1 : CString}
    {pairs : List (Int × CString)}
    (hPair : ScansPair text id sha1 mid)
    (hPairs : ScansPairs mid pairs left) :
    ScansPairs text ((id, sha1) :: pairs) left

/- The first pairs of a text are pairs of the text. -/
theorem ScansPairs.take
    {text left : List Char}
    {pairs : List (Int × CString)}
    (hPairs : ScansPairs text pairs left)
    (n : Nat) :
    ∃ mid, ScansPairs text (pairs.take n) mid := by
  induction hPairs generalizing n with
  | nil text =>
      rw [List.take_nil]
      exact ⟨text, ScansPairs.nil text⟩
  | cons hPair _ ih =>
      cases n with
      | zero => exact ⟨_, ScansPairs.nil _⟩
      | succ n =>
          rcases ih n with ⟨mid, hMid⟩
          exact ⟨mid, ScansPairs.cons hPair hMid⟩

/-
  The list holds the pairs of the text in order, every entry
  unfetched, and nothing else: all pairs up to the first
  place where none stands, at most `maxChunkNum`.
-/
def ParsedFaithfully
    (text : List Char)
    (cl : ChunkList) : Prop :=
  ∃ pairs left,
    ScansPairs text pairs left ∧
      (pairs.length = maxChunkNum ∨
        ∀ id sha1 rest, ¬ ScansPair left id sha1 rest) ∧
      cl.count = pairs.length ∧
      ∀ i id sha1,
        pairs[i]? = some (id, sha1) →
          cl.chunks i = ⟨.unfetched, id, sha1⟩

/-
  The text has nothing but pairs and blanks, or it begins
  with as many pairs as the array has entries.
-/
def OnlyPairs (text : List Char) : Prop :=
  ∃ pairs left,
    ScansPairs text pairs left ∧
      (pairs.length = maxChunkNum ∨
        ∀ c ∈ left, isSpace c = true)

end BtPeer

------------------------------------------------------------
-- One Conversion
------------------------------------------------------------

namespace BtPeer

/- `%d %s` behind the blanks, `c` the first character. -/
theorem fscanfLine_converted
    (line : ChunkLine)
    {inp cs : List Char}
    {c : Char}
    {digits gap token rest : List Char}
    (hDrop : inp.dropWhile isSpace = c :: cs)
    (hBody :
      (if c = '-' ∨ c = '+' then cs else c :: cs) =
        digits ++ (gap ++ (token ++ rest)))
    (hDigits : digits ≠ [])
    (hDigit : ∀ d ∈ digits, d.isDigit = true)
    (hGap : ∀ d ∈ gap, isSpace d = true)
    (hApart : gap = [] → StopsClass Char.isDigit token)
    (hToken : token ≠ [])
    (hText : ∀ d ∈ token, isSpace d = false)
    (hEnd : StopsClass (! isSpace ·) rest) :
    fscanfLine line inp =
      some
        ({ line with
            id := scanInt (c = '-') digits
            sha1 := token },
          rest) := by
  rcases List.exists_cons_of_ne_nil hToken with
    ⟨t, ts, rfl⟩
  have hStopsDigits :
      StopsClass Char.isDigit (gap ++ (t :: ts ++ rest)) := by
    cases hGapCases : gap with
    | nil => exact stopsClass_cons (hApart hGapCases t ts rfl) _
    | cons g gs =>
        have hBlank : isSpace g = true :=
          hGap g (by simp [hGapCases])
        refine stopsClass_cons ?_ _
        by_contra hNot
        have hPlain :=
          isDigit_plain (Bool.not_eq_false _ ▸ hNot)
        simp [hBlank] at hPlain
  have hStopsGap : StopsClass isSpace (t :: ts ++ rest) :=
    stopsClass_cons (hText t (by simp)) _
  have hTokenChars :
      ∀ d ∈ t :: ts, (! isSpace d) = true := by
    intro d hd
    rw [hText d hd]
    rfl
  unfold fscanfLine
  simp only [hDrop, hBody, takeWhile_stops hDigit hStopsDigits,
    dropWhile_stops hDigit hStopsDigits,
    dropWhile_stops hGap hStopsGap, if_neg hDigits]
  rw [List.cons_append]
  simp only
  rw [← List.cons_append, takeWhile_stops hTokenChars hEnd,
    dropWhile_stops hTokenChars hEnd]

/- A pair at the front is converted and consumed. -/
theorem fscanfLine_pair
    (line : ChunkLine)
    {inp rest : List Char}
    {id : Int}
    {sha1 : CString}
    (hPair : ScansPair inp id sha1 rest) :
    fscanfLine line inp =
      some ({ line with id := id, sha1 := sha1 }, rest) := by
  cases hPair with
  | intro blanks sign digits gap _ _ hBlanks hSign hDigits
      hDigit hGap hApart hToken hText hEnd =>
    rcases hSign with rfl | hMark
    · -- the first character behind the blanks is a digit
      rcases List.exists_cons_of_ne_nil hDigits with
        ⟨d, ds, rfl⟩
      rcases isDigit_plain (hDigit d (by simp)) with
        ⟨hNoBlank, hNoMinus, hNoPlus⟩
      have hDrop :=
        dropWhile_stops hBlanks
          (stopsClass_cons hNoBlank
            (ds ++ (gap ++ (sha1 ++ rest))))
      have hScan :=
        fscanfLine_converted line hDrop
          (by rw [if_neg (by simp [hNoMinus, hNoPlus])]; rfl)
          hDigits hDigit hGap hApart hToken hText hEnd
      simpa [hNoMinus] using hScan
    · -- it is the sign
      have hChar :
          ∃ c, sign = [c] ∧ (c = '-' ∨ c = '+') ∧
            isSpace c = false := by
        rcases hMark with rfl | rfl
        · exact ⟨'-', rfl, Or.inl rfl, rfl⟩
        · exact ⟨'+', rfl, Or.inr rfl, rfl⟩
      rcases hChar with ⟨c, rfl, hSign, hNoBlank⟩
      have hDrop :=
        dropWhile_stops hBlanks
          (stopsClass_cons hNoBlank
            (digits ++ (gap ++ (sha1 ++ rest))))
      have hScan :=
        fscanfLine_converted line hDrop
          (by rw [if_pos hSign])
          hDigits hDigit hGap hApart hToken hText hEnd
      simpa using hScan

/- Where a class stops, the text goes on outside it. -/
theorem stopsClass_dropWhile
    (p : Char → Bool)
    (text : List Char) :
    StopsClass p (text.dropWhile p) := by
  intro c cs hText
  have hHead := List.head?_dropWhile_not p text
  rw [hText] at hHead
  simpa using hHead

/- The sign in front of the digits, if there is one. -/
theorem exists_sign
    (c : Char)
    (cs : List Char) :
    ∃ sign,
      (sign = [] ∨ sign = ['-'] ∨ sign = ['+']) ∧
        decide (sign = ['-']) = decide (c = '-') ∧
        c :: cs =
          sign ++
            (if c = '-' ∨ c = '+' then cs else c :: cs) := by
  by_cases hMinus : c = '-'
  · subst hMinus
    exact ⟨['-'], by simp, by simp, by simp⟩
  · by_cases hPlus : c = '+'
    · subst hPlus
      exact ⟨['+'], by simp, by simp, by simp⟩
    · exact ⟨[], by simp, by simp [hMinus], by
        simp [hMinus, hPlus]⟩

/-
  A scan that sets both fields whatever they held before has
  consumed a pair.
-/
theorem scansPair_of_fscanfLine
    {inp rest : List Char}
    {id : Int}
    {sha1 : CString}
    (hScan :
      ∀ line,
        fscanfLine line inp =
          some ({ line with id := id, sha1 := sha1 }, rest)) :
    ScansPair inp id sha1 rest := by
  -- two entries that no scan of this kind leaves as they are
  have hId := hScan ⟨.unfetched, id + 1, sha1⟩
  have hSha1 := hScan ⟨.unfetched, id, 'x' :: sha1⟩
  have hInp :=
    (List.takeWhile_append_dropWhile
      (p := isSpace) (l := inp)).symm
  unfold fscanfLine at hId hSha1
  cases hDrop : inp.dropWhile isSpace with
  | nil =>
      rw [hDrop] at hId
      cases hId
  | cons c cs =>
      rcases exists_sign c cs with
        ⟨sign, hSign, hNegative, hBody⟩
      rw [hDrop] at hId hSha1 hInp
      rw [hBody] at hInp
      simp only at hId hSha1
      generalize (if c = '-' ∨ c = '+' then cs else c :: cs) =
        body at hId hSha1 hInp
      by_cases hDigits : body.takeWhile Char.isDigit = []
      · rw [if_pos hDigits, Option.some.injEq,
          Prod.mk.injEq, ChunkLine.mk.injEq] at hId
        omega
      · rw [if_neg hDigits] at hId hSha1
        have hNumber :=
          (List.takeWhile_append_dropWhile
            (p := Char.isDigit) (l := body)).symm
        have hApart :=
          stopsClass_dropWhile Char.isDigit body
        generalize body.dropWhile Char.isDigit = tail
          at hId hSha1 hNumber hApart
        have hTail :=
          (List.takeWhile_append_dropWhile
            (p := isSpace) (l := tail)).symm
        have hStart := stopsClass_dropWhile isSpace tail
        cases hToken : tail.dropWhile isSpace with
        | nil =>
            rw [hToken] at hSha1
            simp at hSha1
        | cons t ts =>
            rw [hToken] at hId hTail hStart
            simp only [Option.some.injEq, Prod.mk.injEq,
              ChunkLine.mk.injEq, true_and] at hId
            rcases hId with ⟨⟨rfl, rfl⟩, rfl⟩
            have hText : isSpace t = false := hStart t ts rfl
            have hPair :=
              ScansPair.intro (inp.takeWhile isSpace) sign
                (body.takeWhile Char.isDigit)
                (tail.takeWhile isSpace)
                ((t :: ts).takeWhile (! isSpace ·))
                ((t :: ts).dropWhile (! isSpace ·))
                (fun _ => List.mem_takeWhile_imp) hSign hDigits
                (fun _ => List.mem_takeWhile_imp)
                (fun _ => List.mem_takeWhile_imp)
                (by
                  intro hGap d ds hFirst
                  rw [hGap, List.nil_append] at hTail
                  rw [List.takeWhile_cons, hText] at hFirst
                  cases hFirst
                  exact hApart t ts hTail)
                (by simp [hText])
                (by
                  intro d hd
                  simpa using List.mem_takeWhile_imp hd)
                (stopsClass_dropWhile _ _)
            rw [List.takeWhile_append_dropWhile, ← hTail,
              ← hNumber, ← hInp, hNegative] at hPair
            exact hPair

/- Pairs are what `fscanf` converts as a whole. -/
theorem scansPair_iff
    {inp rest : List Char}
    {id : Int}
    {sha1 : CString} :
    ScansPair inp id sha1 rest ↔
      ∀ line,
        fscanfLine line inp =
          some ({ line with id := id, sha1 := sha1 }, rest) :=
  ⟨fun hPair line => fscanfLine_pair line hPair,
    scansPair_of_fscanfLine⟩

/- Only blanks are left exactly at EOF. -/
theorem fscanfLine_eq_none_iff
    (line : ChunkLine)
    (inp : List Char) :
    fscanfLine line inp = none ↔
      ∀ c ∈ inp, isSpace c = true := by
  rw [← List.dropWhile_eq_nil_iff]
  unfold fscanfLine
  cases inp.dropWhile isSpace with
  | nil => simp
  | cons c cs =>
      simp only [reduceCtorEq, iff_false]
      generalize (if c = '-' ∨ c = '+' then cs else c :: cs) =
        body
      by_cases hDigits : body.takeWhile Char.isDigit = []
      · rw [if_pos hDigits]
        exact Option.some_ne_none _
      · rw [if_neg hDigits]
        cases (body.dropWhile Char.isDigit).dropWhile
            isSpace <;>
          exact Option.some_ne_none _

end BtPeer

------------------------------------------------------------
-- The Loop over the Pairs
------------------------------------------------------------

namespace BtPeer

/-
  While pairs stand in the text and entries are left, the
  loop takes one pair into each entry.
-/
theorem parseChunkLoop_pairs
    {text left : List Char}
    {pairs : List (Int × CString)}
    (hPairs : ScansPairs text pairs left)
    (k i : Nat)
    (chunks : Nat → ChunkLine) :
    ∃ chunks',
      parseChunkLoop (pairs.length + k) i chunks text =
          parseChunkLoop k (i + pairs.length) chunks' left ∧
        (∀ j, j < i → chunks' j = chunks j) ∧
        ∀ j id sha1,
          pairs[j]? = some (id, sha1) →
            chunks' (i + j) = ⟨.unfetched, id, sha1⟩ := by
  induction hPairs generalizing i chunks with
  | nil text =>
      refine ⟨chunks, ?_, fun j _ => rfl, ?_⟩
      · simp
      · intro j id sha1 hPair
        simp at hPair
  | @cons text mid left id sha1 pairs hPair hPairs ih =>
      let entry : ChunkLine := ⟨.unfetched, id, sha1⟩
      rcases ih (i + 1) (Function.update chunks i entry) with
        ⟨chunks', hLoop, hBefore, hEntries⟩
      refine ⟨chunks', ?_, ?_, ?_⟩
      · rw [List.length_cons,
          Nat.add_right_comm pairs.length 1 k]
        simp only [parseChunkLoop,
          fscanfLine_pair (chunks i) hPair]
        rw [hLoop, Nat.add_assoc i 1, Nat.add_comm 1]
      · intro j hj
        rw [hBefore j (Nat.lt_succ_of_lt hj)]
        exact Function.update_of_ne (Nat.ne_of_lt hj) _ _
      · intro j jd jsha1 hGet
        cases j with
        | zero =>
            simp only [List.getElem?_cons_zero,
              Option.some.injEq, Prod.mk.injEq] at hGet
            rcases hGet with ⟨rfl, rfl⟩
            rw [hBefore (i + 0) (Nat.lt_succ_self i)]
            exact Function.update_self i entry chunks
        | succ j =>
            rw [List.getElem?_cons_succ] at hGet
            rw [Nat.add_comm j 1, ← Nat.add_assoc]
            exact hEntries j jd jsha1 hGet

/-
  A text on which nothing is converted or consumed fills
  every entry left in the array with what it held.
-/
theorem parseChunkLoop_stuck
    {text : List Char}
    (hStuck :
      ∀ line, fscanfLine line text = some (line, text))
    (k i : Nat)
    (chunks : Nat → ChunkLine) :
    (parseChunkLoop k i chunks text).1 = i + k ∧
      ∀ j,
        ((parseChunkLoop k i chunks text).2 j).id =
            (chunks j).id ∧
          ((parseChunkLoop k i chunks text).2 j).sha1 =
            (chunks j).sha1 := by
  induction k generalizing i chunks with
  | zero => exact ⟨rfl, fun j => ⟨rfl, rfl⟩⟩
  | succ k ih =>
      simp only [parseChunkLoop, hStuck]
      rcases ih (i + 1)
          (Function.update chunks i
            { chunks i with state := .unfetched }) with
        ⟨hCount, hLines⟩
      refine ⟨by rw [hCount]; omega, ?_⟩
      intro j
      rcases hLines j with ⟨hId, hSha1⟩
      rw [hId, hSha1]
      by_cases hj : j = i
      · subst hj
        simp
      · simp [hj]

end BtPeer

------------------------------------------------------------
-- Faithful Parsing
------------------------------------------------------------

namespace BtPeer

theorem parseChunk_opened
    (cl : ChunkList)
    (text : List Char) :
    ∃ cl', parseChunk cl (some text) = some cl' :=
  ⟨_, rfl⟩

theorem parseChunk_eq
    {cl cl' : ChunkList}
    {text : List Char}
    (hParse : parseChunk cl (some text) = some cl') :
    cl'.count =
        (parseChunkLoop maxChunkNum 0 cl.chunks text).1 ∧
      cl'.chunks =
        (parseChunkLoop maxChunkNum 0 cl.chunks text).2 := by
  simp only [parseChunk, Option.some.injEq] at hParse
  subst hParse
  exact ⟨rfl, rfl⟩

/- An entry more than pairs comes from any text left over. -/
theorem onlyPairs_of_parsedFaithfully
    {cl cl' : ChunkList}
    {text : List Char}
    (hParse : parseChunk cl (some text) = some cl')
    (hFaithful : ParsedFaithfully text cl') :
    OnlyPairs text := by
  rcases hFaithful with
    ⟨pairs, left, hPairs, _, hCount, _⟩
  refine ⟨pairs, left, hPairs, ?_⟩
  rcases parseChunk_eq hParse with ⟨hLoopCount, _⟩
  have hLe : pairs.length ≤ maxChunkNum :=
    hCount ▸ cl'.count_le
  by_cases hFull : pairs.length = maxChunkNum
  · exact Or.inl hFull
  · refine Or.inr ?_
    rcases Nat.exists_eq_add_of_lt
        (Nat.lt_of_le_of_ne hLe hFull) with
      ⟨k, hRoom⟩
    rcases parseChunkLoop_pairs hPairs (k + 1) 0
        cl.chunks with
      ⟨chunks', hLoop, _, _⟩
    rw [← Nat.add_assoc, ← hRoom] at hLoop
    rw [hLoop, Nat.zero_add] at hLoopCount
    rw [← fscanfLine_eq_none_iff (chunks' pairs.length)]
    cases hScan :
        fscanfLine (chunks' pairs.length) left with
    | none => rfl
    | some result =>
        rcases result with ⟨line, rest⟩
        simp only [parseChunkLoop, hScan] at hLoopCount
        have hMore :=
          (parseChunkLoop_spec k (pairs.length + 1)
            (Function.update chunks' pairs.length
              { line with state := .unfetched }) rest).1
        omega

/- With pairs only, the loop ends where they end. -/
theorem parsedFaithfully_of_onlyPairs
    {cl cl' : ChunkList}
    {text : List Char}
    (hParse : parseChunk cl (some text) = some cl')
    (hOnly : OnlyPairs text) :
    ParsedFaithfully text cl' := by
  rcases parseChunk_eq hParse with ⟨hCount, hChunks⟩
  -- the loop after `pairs`, when it stops there
  have hStop :
      ∀ pairs left,
        ScansPairs text pairs left →
        ∀ k, pairs.length + k = maxChunkNum →
        (∀ chunks,
          parseChunkLoop k pairs.length chunks left =
            (pairs.length, chunks)) →
        cl'.count = pairs.length ∧
          ∀ i id sha1,
            pairs[i]? = some (id, sha1) →
              cl'.chunks i = ⟨.unfetched, id, sha1⟩ := by
    intro pairs left hPairs k hRoom hEnds
    rcases parseChunkLoop_pairs hPairs k 0 cl.chunks with
      ⟨chunks', hLoop, _, hEntries⟩
    rw [hRoom, Nat.zero_add, hEnds chunks'] at hLoop
    rw [hLoop] at hCount hChunks
    refine ⟨hCount, ?_⟩
    intro i id sha1 hGet
    rw [hChunks]
    simpa using hEntries i id sha1 hGet
  rcases hOnly with ⟨pairs, left, hPairs, hEnd⟩
  by_cases hFull : maxChunkNum ≤ pairs.length
  · rcases hPairs.take maxChunkNum with ⟨mid, hFirst⟩
    have hLength :
        (pairs.take maxChunkNum).length = maxChunkNum := by
      rw [List.length_take]
      exact Nat.min_eq_left hFull
    exact
      ⟨pairs.take maxChunkNum, mid, hFirst, Or.inl hLength,
        hStop _ mid hFirst 0 (by rw [Nat.add_zero, hLength])
          (fun chunks => rfl)⟩
  · have hBlank : ∀ c ∈ left, isSpace c = true := by
      rcases hEnd with hExact | hBlank
      · exact absurd (Nat.le_of_eq hExact.symm) hFull
      · exact hBlank
    refine ⟨pairs, left, hPairs, Or.inr ?_, ?_⟩
    · intro id sha1 rest hPair
      have hNone :=
        (fscanfLine_eq_none_iff (cl.chunks 0) left).mpr
          hBlank
      rw [fscanfLine_pair _ hPair] at hNone
      exact Option.some_ne_none _ hNone
    · rcases Nat.exists_eq_add_of_lt
          (Nat.lt_of_not_le hFull) with
        ⟨k, hRoom⟩
      refine hStop pairs left hPairs (k + 1) ?_ ?_
      · rw [← Nat.add_assoc]
        exact hRoom.symm
      · intro chunks
        simp only [parseChunkLoop,
          (fscanfLine_eq_none_iff (chunks pairs.length)
            left).mpr hBlank]

/-
  The parsed list is faithful exactly when the text holds
  nothing but pairs, as far as the array reaches.
-/
theorem parseChunk_faithful_iff
    (cl cl' : ChunkList)
    (text : List Char)
    (hParse : parseChunk cl (some text) = some cl') :
    ParsedFaithfully text cl' ↔ OnlyPairs text :=
  ⟨onlyPairs_of_parsedFaithfully hParse,
    parsedFaithfully_of_onlyPairs hParse⟩

/- A pair and nothing else. -/
theorem onlyPairs_pair :
    OnlyPairs ['1', ' ', 'a'] := by
  refine
    ⟨[(scanInt false ['1'], ['a'])], [], ?_,
      Or.inr (List.forall_mem_nil _)⟩
  refine ScansPairs.cons ?_ (ScansPairs.nil [])
  refine
    ScansPair.intro [] [] ['1'] [' '] ['a'] []
      (List.forall_mem_nil _) (Or.inl rfl)
      (List.cons_ne_nil _ _) ?_ ?_ ?_
      (List.cons_ne_nil _ _) ?_ ?_
  · exact List.forall_mem_singleton.mpr rfl
  · exact List.forall_mem_singleton.mpr rfl
  · intro hGap
    cases hGap
  · exact List.forall_mem_singleton.mpr rfl
  · intro c cs hEnd
    cases hEnd

theorem parseChunk_faithful_pair :
    ∃ cl',
      parseChunk ChunkList.zero
          (some ['1', ' ', 'a']) = some cl' ∧
        ParsedFaithfully ['1', ' ', 'a'] cl' :=
  ⟨_, rfl,
    (parseChunk_faithful_iff ChunkList.zero _ _ rfl).mpr
      onlyPairs_pair⟩

/- A text without a pair that is not blank. -/
theorem not_onlyPairs_letter :
    ¬ OnlyPairs ['x'] := by
  rintro ⟨pairs, left, hPairs, hEnd⟩
  cases hPairs with
  | nil =>
      rcases hEnd with hFull | hBlank
      · exact absurd hFull (by decide)
      · have hX := hBlank 'x' (List.mem_singleton_self 'x')
        exact absurd hX (by decide)
  | cons hPair _ =>
      -- the scan of this text leaves the entry as it was
      have hScan := scansPair_iff.mp hPair
      have hOld := hScan ⟨.unfetched, 0, []⟩
      have hNew := hScan ⟨.unfetched, 0, ['y']⟩
      have hStuck :
          ∀ line, fscanfLine line ['x'] = some (line, ['x']) :=
        fun line => rfl
      rw [hStuck] at hOld hNew
      simp only [Option.some.injEq, Prod.mk.injEq,
        ChunkLine.mk.injEq] at hOld hNew
      exact absurd (hOld.1.2.2.trans hNew.1.2.2.symm)
        (by decide)

/-
  The text "x" gives a full list of entries with the ids and
  hashes that the array held before.
-/
theorem parseChunk_leftover :
    ∃ cl',
      parseChunk ChunkList.zero (some ['x']) = some cl' ∧
        cl'.count = maxChunkNum ∧
        (∀ i,
          (cl'.chunks i).id = (ChunkList.zero.chunks i).id ∧
            (cl'.chunks i).sha1 =
              (ChunkList.zero.chunks i).sha1) ∧
        ¬ ParsedFaithfully ['x'] cl' := by
  rcases parseChunk_opened ChunkList.zero ['x'] with
    ⟨cl', hParse⟩
  rcases parseChunk_eq hParse with ⟨hCount, hChunks⟩
  rcases parseChunkLoop_stuck
      (show ∀ line, fscanfLine line ['x'] = some (line, ['x'])
        from fun line => rfl)
      maxChunkNum 0 ChunkList.zero.chunks with
    ⟨hFull, hOld⟩
  refine ⟨cl', hParse, ?_, ?_, ?_⟩
  · rw [hCount, hFull, Nat.zero_add]
  · rw [hChunks]
    exact hOld
  · intro hFaithful
    exact not_onlyPairs_letter
      (onlyPairs_of_parsedFaithfully hParse hFaithful)

end BtPeer
