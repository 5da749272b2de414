import BtPeer.Packet.HashPacket
import Mathlib.Data.List.Find
import Mathlib.Data.List.Forall2

/-
  Hashes that differ in the case of their letters only.

  They stand for the same bytes, so packets do not tell them
  apart. Comparisons do: only a string of lower-case digits
  equals one of `binary2hex`.

  Key definitions include:
    * `SameDigit`
    * `SameText`
    * `SameHash`
    * `SameList`

  Key theorems include:
    * `SameText.bytes`
    * `SameHash.eq_iff`
    * `hash2Index_same`
    * `buildPackets_same`
    * `parseChunk_same`
-/

------------------------------------------------------------
-- Letters
------------------------------------------------------------

namespace BtPeer

/- The letters among the hexadecimal digits, in both cases. -/
def hexLetters : List (Char × Char) :=
  [('a', 'A'), ('b', 'B'), ('c', 'C'), ('d', 'D'),
    ('e', 'E'), ('f', 'F')]

/- The same character, or the same letter in the other case. -/
def SameDigit (c c' : Char) : Prop :=
  c = c' ∨ (c, c') ∈ hexLetters ∨ (c', c) ∈ hexLetters

instance (c c' : Char) : Decidable (SameDigit c c') := by
  unfold SameDigit
  infer_instance

/- What does not depend on the case of the letters. -/
theorem SameDigit.map_eq
    {α : Type*}
    {f : Char → α}
    (hLetters : ∀ q ∈ hexLetters, f q.1 = f q.2)
    {c c' : Char}
    (hDigit : SameDigit c c') :
    f c = f c' := by
  rcases hDigit with rfl | hUpper | hLower
  · rfl
  · exact hLetters (c, c') hUpper
  · exact (hLetters (c', c) hLower).symm

/- The upper-case letters do not come out of `binary2hex`. -/
def upperLetters : List Char := hexLetters.map Prod.snd

theorem SameDigit.eq_of_lower
    {c c' : Char}
    (hDigit : SameDigit c c')
    (hLower : c ∉ upperLetters)
    (hLower' : c' ∉ upperLetters) :
    c = c' := by
  rcases hDigit with hSame | hUpper | hUpper
  · exact hSame
  · exact absurd (List.mem_map_of_mem hUpper) hLower'
  · exact absurd (List.mem_map_of_mem hUpper) hLower

theorem digitChar_lower :
    ∀ n, n < 16 → Nat.digitChar n ∉ upperLetters := by
  decide

theorem binary2hex_lower
    {buf : Nat → Byte}
    {len : Nat}
    {c : Char}
    (hMem : c ∈ binary2hex buf len) :
    c ∉ upperLetters := by
  unfold binary2hex at hMem
  rcases List.mem_flatMap.mp hMem with ⟨i, _, hDigit⟩
  have hLt := (buf i).isLt
  rcases List.mem_pair.mp hDigit with rfl | rfl
  · exact digitChar_lower _ (by omega)
  · exact digitChar_lower _ (by omega)

end BtPeer

------------------------------------------------------------
-- Texts And Hashes
------------------------------------------------------------

namespace BtPeer

/- Texts that differ in the case of hexadecimal digits only. -/
def SameText (text text' : List Char) : Prop :=
  List.Forall₂ SameDigit text text'

theorem SameText.refl (text : List Char) : SameText text text :=
  List.forall₂_same.mpr (fun _ _ => Or.inl rfl)

theorem SameText.eq_of_lower
    {text text' : List Char}
    (hText : SameText text text')
    (hLower : ∀ c ∈ text, c ∉ upperLetters)
    (hLower' : ∀ c ∈ text', c ∉ upperLetters) :
    text = text' := by
  induction hText with
  | nil => rfl
  | cons hDigit hRest ih =>
      have hFirst :=
        hDigit.eq_of_lower (hLower _ List.mem_cons_self)
          (hLower' _ List.mem_cons_self)
      have hTail :=
        ih (fun c hc => hLower c (List.mem_cons_of_mem _ hc))
          (fun c hc => hLower' c (List.mem_cons_of_mem _ hc))
      rw [hFirst, hTail]

/- Two digests that differ in case only are the same. -/
theorem SameText.eq_of_isHashString
    {hash hash' : CString}
    (hText : SameText hash hash')
    (hHash : IsHashString hash)
    (hHash' : IsHashString hash') :
    hash = hash' := by
  rcases hHash with ⟨buf, rfl⟩
  rcases hHash' with ⟨buf', rfl⟩
  exact hText.eq_of_lower
    (fun _ hc => binary2hex_lower hc)
    (fun _ hc => binary2hex_lower hc)

theorem SameText.charAt
    {hash hash' : CString}
    (hText : SameText hash hash')
    (i : Nat) :
    SameDigit (charAt hash i) (charAt hash' i) := by
  unfold BtPeer.charAt
  induction hText generalizing i with
  | nil => exact Or.inl rfl
  | cons hDigit hRest ih =>
      cases i with
      | zero => exact hDigit
      | succ i => exact ih i

/- They stand for the same bytes. -/
theorem SameText.bytes
    {hash hash' : CString}
    (hText : SameText hash hash') :
    hex2binary hash = hex2binary hash' := by
  have hDigits :
      ∀ q ∈ hexLetters,
        hexDigit2binary q.1 = hexDigit2binary q.2 := by
    decide
  funext i
  unfold hex2binary
  rw [(hText.charAt (2 * i)).map_eq hDigits,
    (hText.charAt (2 * i + 1)).map_eq hDigits]

/-
  Two hashes that differ in case only, of which both or
  neither is spelled as `binary2hex` spells it.
-/
structure SameHash (hash hash' : CString) : Prop where
  text : SameText hash hash'
  lower :
    IsHashString (hash.take sha1HashStrSize) ↔
      IsHashString (hash'.take sha1HashStrSize)

namespace SameHash

variable {hash hash' : CString}

theorem refl (hash : CString) : SameHash hash hash :=
  ⟨SameText.refl hash, Iff.rfl⟩

theorem symm
    (hSame : SameHash hash hash') : SameHash hash' hash := by
  refine ⟨?_, hSame.lower.symm⟩
  apply List.Forall₂.flip
  apply hSame.text.imp
  intro c c' hDigit
  rcases hDigit with rfl | hUpper | hLower
  · exact Or.inl rfl
  · exact Or.inr (Or.inr hUpper)
  · exact Or.inr (Or.inl hLower)

/- The first 40 characters equal the same digests. -/
theorem take_eq_of
    (hSame : SameHash hash hash')
    {digest : CString}
    (hDigest : IsHashString digest)
    (hEq : hash.take sha1HashStrSize = digest) :
    hash'.take sha1HashStrSize = digest := by
  have hHash : IsHashString (hash.take sha1HashStrSize) := by
    rw [hEq]
    exact hDigest
  have hTake :
      SameText (hash.take sha1HashStrSize)
        (hash'.take sha1HashStrSize) :=
    List.forall₂_take _ hSame.text
  rw [← hEq]
  exact
    (hTake.eq_of_isHashString hHash
      (hSame.lower.mp hHash)).symm

theorem take_iff
    (hSame : SameHash hash hash')
    {digest : CString}
    (hDigest : IsHashString digest) :
    hash.take sha1HashStrSize = digest ↔
      hash'.take sha1HashStrSize = digest :=
  ⟨hSame.take_eq_of hDigest, hSame.symm.take_eq_of hDigest⟩

theorem eq_of
    (hSame : SameHash hash hash')
    {digest : CString}
    (hDigest : IsHashString digest)
    (hEq : hash = digest) :
    hash' = digest := by
  have hLength : digest.length = sha1HashStrSize := by
    rcases hDigest with ⟨buf, rfl⟩
    rw [binary2hex_length]
    rfl
  have hShort : hash.take sha1HashStrSize = hash := by
    apply List.take_of_length_le
    rw [hEq, hLength]
  have hShort' : hash'.take sha1HashStrSize = hash' := by
    apply List.take_of_length_le
    rw [← hSame.text.length_eq, hEq, hLength]
  rw [← hShort']
  apply hSame.take_eq_of hDigest
  rw [hShort]
  exact hEq

/- They equal the same digests. -/
theorem eq_iff
    (hSame : SameHash hash hash')
    {digest : CString}
    (hDigest : IsHashString digest) :
    hash = digest ↔ hash' = digest :=
  ⟨hSame.eq_of hDigest, hSame.symm.eq_of hDigest⟩

end SameHash

end BtPeer

------------------------------------------------------------
-- Chunk Lists
------------------------------------------------------------

namespace BtPeer

structure SameLine (line line' : ChunkLine) : Prop where
  state : line.state = line'.state
  id : line.id = line'.id
  sha1 : SameHash line.sha1 line'.sha1

/- Lists of the same chunks in two spellings. -/
structure SameList (cl cl' : ChunkList) : Prop where
  count : cl.count = cl'.count
  line : ∀ i, SameLine (cl.chunks i) (cl'.chunks i)

namespace SameList

variable {cl cl' : ChunkList}

theorem refl (cl : ChunkList) : SameList cl cl :=
  ⟨rfl, fun _ => ⟨rfl, rfl, SameHash.refl _⟩⟩

theorem setState
    (hList : SameList cl cl')
    (i : Nat)
    (st : ChunkState) :
    SameList (cl.setState i st) (cl'.setState i st) := by
  refine ⟨hList.count, ?_⟩
  intro k
  have hLine := hList.line k
  constructor
  case state =>
    rw [ChunkList.setState_state, ChunkList.setState_state,
      hLine.state]
  case id =>
    rw [ChunkList.setState_id, ChunkList.setState_id]
    exact hLine.id
  case sha1 =>
    rw [ChunkList.setState_sha1, ChunkList.setState_sha1]
    exact hLine.sha1

end SameList

variable {cl cl' : ChunkList}

/- A digest is found at the same place. -/
theorem hash2Index_same
    (hList : SameList cl cl')
    {digest : CString}
    (hDigest : IsHashString digest) :
    hash2Index cl digest = hash2Index cl' digest := by
  unfold hash2Index
  rw [hList.count]
  apply List.find?_congr
  intro i _
  exact
    decide_eq_decide.mpr
      ((hList.line i).sha1.eq_iff hDigest)

end BtPeer

------------------------------------------------------------
-- Packets
------------------------------------------------------------

namespace BtPeer

variable {getchunks getchunks' c c' : ChunkList}

theorem selected_same
    (hGet : SameList getchunks getchunks')
    (pp : PktParam)
    (j : Nat) :
    selected getchunks pp j = selected getchunks' pp j := by
  unfold selected
  rw [(hGet.line (pp.cIndex.toNat + j)).state]

/- The hashes of the two lists are placed as the same bytes. -/
theorem addHashes_same
    (hGet : SameList getchunks getchunks')
    (hList : SameList c c')
    (pp : PktParam)
    (k j cnt : Nat)
    (pkt : Packet) :
    addHashes getchunks c { pp with c := some c } k j cnt
        pkt =
      addHashes getchunks' c' { pp with c := some c' } k j cnt
        pkt := by
  induction k generalizing j cnt pkt with
  | zero => rfl
  | succ k ih =>
      have hSelected :
          selected getchunks { pp with c := some c } j =
            selected getchunks' { pp with c := some c' } j :=
        selected_same hGet { pp with c := some c } j
      have hPlaced :
          pkt.setHash cnt (c.chunks (pp.cIndex.toNat + j)).sha1 =
            pkt.setHash cnt
              (c'.chunks (pp.cIndex.toNat + j)).sha1 := by
        unfold Packet.setHash
        rw [(hList.line (pp.cIndex.toNat + j)).sha1.text.bytes]
      unfold addHashes
      rw [hSelected, hPlaced, ih, ih]

theorem hashPacket_same
    (hGet : SameList getchunks getchunks')
    (hList : SameList c c')
    (pp : PktParam)
    (j limit : Nat)
    (pkt : Packet) :
    hashPacket getchunks c { pp with c := some c } j limit
        pkt =
      hashPacket getchunks' c' { pp with c := some c' } j limit
        pkt := by
  have hHeader :
      setHeader { pp with c := some c } pkt =
        setHeader { pp with c := some c' } pkt := rfl
  unfold hashPacket
  rw [hHeader, addHashes_same hGet hList]

theorem hashPackets_same
    (hGet : SameList getchunks getchunks')
    (hList : SameList c c')
    (pp : PktParam)
    (k i j : Nat)
    (pkt : Packet) :
    hashPackets getchunks c { pp with c := some c } k i j
        pkt =
      hashPackets getchunks' c' { pp with c := some c' } k i j
        pkt := by
  have hCount :
      PktParam.chunkCount { pp with c := some c } c =
        PktParam.chunkCount { pp with c := some c' } c' := by
    unfold PktParam.chunkCount
    rw [hList.count]
  induction k generalizing i j pkt with
  | zero => rfl
  | succ k ih =>
      simp only [hashPackets]
      rw [hCount, hashPacket_same hGet hList pp, ih]

/- A call for chunks makes the same packets. -/
theorem buildPackets_same
    (hGet : SameList getchunks getchunks')
    (hList : SameList c c')
    (stack : Nat → Byte)
    (pp : PktParam) :
    buildPackets getchunks stack { pp with c := some c } =
      buildPackets getchunks' stack
        { pp with c := some c' } := by
  have hCount :
      PktParam.chunkCount { pp with c := some c } c =
        PktParam.chunkCount { pp with c := some c' } c' := by
    unfold PktParam.chunkCount
    rw [hList.count]
  unfold buildPackets
  by_cases hGuard : pp.pIndex < 0 ∨ pp.cIndex < 0
  · rw [if_pos hGuard, if_pos hGuard]
  · rw [if_neg hGuard, if_neg hGuard]
    have hSame :
        ∀ n,
          hashPackets getchunks c { pp with c := some c } n 0 0
              (stackPacket stack) =
            hashPackets getchunks' c' { pp with c := some c' } n
              0 0 (stackPacket stack) :=
      fun n => hashPackets_same hGet hList pp n 0 0 _
    cases hKind : pp.nondata with
    | true =>
        have hKind₁ :
            PktParam.nondata { pp with c := some c } = true :=
          hKind
        have hKind₂ :
            PktParam.nondata { pp with c := some c' } = true :=
          hKind
        simp only [hKind₁, hKind₂]
        rw [hCount]
        exact hSame _
    | false =>
        have hKind₁ :
            PktParam.nondata { pp with c := some c } = false :=
          hKind
        have hKind₂ :
            PktParam.nondata { pp with c := some c' } = false :=
          hKind
        simp only [hKind₁, hKind₂]
        rfl

/- So does a call whose list is not in question. -/
theorem buildPackets_same_call
    (hGet : SameList getchunks getchunks')
    (stack : Nat → Byte)
    (pp : PktParam) :
    buildPackets getchunks stack pp =
      buildPackets getchunks' stack pp := by
  cases hList : pp.c with
  | none =>
      unfold buildPackets
      rw [hList]
  | some c =>
      have hSelf : pp = { pp with c := some c } := by
        rw [← hList]
      rw [hSelf]
      exact buildPackets_same hGet (SameList.refl c) stack pp

end BtPeer

------------------------------------------------------------
-- Parsing
------------------------------------------------------------

namespace BtPeer

namespace SameText

variable {text text' : List Char}
variable {p : Char → Bool}

theorem dropWhile
    (hText : SameText text text')
    (hLetters : ∀ q ∈ hexLetters, p q.1 = p q.2) :
    SameText (text.dropWhile p) (text'.dropWhile p) := by
  induction hText with
  | nil => exact .nil
  | @cons c c' rest rest' hDigit hRest ih =>
      have hSame := hDigit.map_eq hLetters
      rw [List.dropWhile_cons, List.dropWhile_cons, hSame]
      split
      · exact ih
      · exact .cons hDigit hRest

theorem takeWhile
    (hText : SameText text text')
    (hLetters : ∀ q ∈ hexLetters, p q.1 = p q.2) :
    SameText (text.takeWhile p) (text'.takeWhile p) := by
  induction hText with
  | nil => exact .nil
  | @cons c c' rest rest' hDigit hRest ih =>
      have hSame := hDigit.map_eq hLetters
      rw [List.takeWhile_cons, List.takeWhile_cons, hSame]
      split
      · exact .cons hDigit ih
      · exact .nil

/- No letter is among the characters taken. -/
theorem takeWhile_eq
    (hText : SameText text text')
    (hLetters :
      ∀ q ∈ hexLetters, p q.1 = false ∧ p q.2 = false) :
    text.takeWhile p = text'.takeWhile p := by
  induction hText with
  | nil => rfl
  | @cons c c' rest rest' hDigit hRest ih =>
      rw [List.takeWhile_cons, List.takeWhile_cons, ih]
      rcases hDigit with rfl | hUpper | hLower
      · rfl
      · rcases hLetters _ hUpper with ⟨hOut, hOut'⟩
        dsimp only at hOut hOut'
        rw [hOut, hOut']
        rfl
      · rcases hLetters _ hLower with ⟨hOut, hOut'⟩
        dsimp only at hOut hOut'
        rw [hOut, hOut']
        rfl

end SameText

/- Entries that differ in the case of the hash only. -/
structure SameEntry (line line' : ChunkLine) : Prop where
  state : line.state = line'.state
  id : line.id = line'.id
  sha1 : SameText line.sha1 line'.sha1

/- The digits behind a sign. -/
theorem body_same
    {c c' : Char}
    {rest rest' : List Char}
    (hDigit : SameDigit c c')
    (hRest : SameText rest rest') :
    SameText (if c = '-' ∨ c = '+' then rest else c :: rest)
      (if c' = '-' ∨ c' = '+' then rest'
      else c' :: rest') := by
  have hSign :
      (c = '-' ∨ c = '+') ↔ (c' = '-' ∨ c' = '+') :=
    decide_eq_decide.mp
      (hDigit.map_eq
        (f := fun c => decide (c = '-' ∨ c = '+'))
        (by decide))
  by_cases hIs : c = '-' ∨ c = '+'
  · rw [if_pos hIs, if_pos (hSign.mp hIs)]
    exact hRest
  · rw [if_neg hIs, if_neg (mt hSign.mpr hIs)]
    exact .cons hDigit hRest

/- One line of the two files. -/
theorem fscanfLine_same
    {line line' : ChunkLine}
    (hLine : SameEntry line line')
    {inp inp' : List Char}
    (hText : SameText inp inp') :
    Option.Rel
      (fun out out' =>
        SameEntry out.1 out'.1 ∧ SameText out.2 out'.2)
      (fscanfLine line inp) (fscanfLine line' inp') := by
  have hSpaces :
      ∀ q ∈ hexLetters, isSpace q.1 = isSpace q.2 := by
    decide
  have hInSpaces :
      ∀ q ∈ hexLetters, (! isSpace q.1) = (! isSpace q.2) := by
    decide
  have hDigits :
      ∀ q ∈ hexLetters,
        Char.isDigit q.1 = false ∧
          Char.isDigit q.2 = false := by
    decide
  have hStart := hText.dropWhile hSpaces
  unfold fscanfLine
  generalize inp.dropWhile isSpace = start at hStart ⊢
  generalize inp'.dropWhile isSpace = start' at hStart ⊢
  cases hStart with
  | nil => exact .none
  | @cons c c' rest rest' hDigit hRest =>
      have hMinus : decide (c = '-') = decide (c' = '-') :=
        hDigit.map_eq (f := fun c => decide (c = '-'))
          (by decide)
      have hBody := body_same hDigit hRest
      dsimp only
      generalize
        (if c = '-' ∨ c = '+' then rest else c :: rest) = body
          at hBody ⊢
      generalize
        (if c' = '-' ∨ c' = '+' then rest'
          else c' :: rest') = body' at hBody ⊢
      have hTaken := hBody.takeWhile_eq hDigits
      have hAfter :=
        (hBody.dropWhile
          (fun q hq =>
            (hDigits q hq).1.trans (hDigits q hq).2.symm)
          ).dropWhile hSpaces
      rw [hTaken, hMinus]
      by_cases hNone : body'.takeWhile Char.isDigit = []
      · rw [if_pos hNone, if_pos hNone]
        exact .some ⟨hLine, hBody⟩
      · rw [if_neg hNone, if_neg hNone]
        generalize
          (body.dropWhile Char.isDigit).dropWhile isSpace =
            token at hAfter ⊢
        generalize
          (body'.dropWhile Char.isDigit).dropWhile isSpace =
            token' at hAfter ⊢
        cases hAfter with
        | nil =>
            exact
              .some ⟨⟨hLine.state, rfl, hLine.sha1⟩, .nil⟩
        | cons hFirst hOthers =>
            have hToken := List.Forall₂.cons hFirst hOthers
            exact
              .some
                ⟨⟨hLine.state, rfl,
                    SameText.takeWhile hToken hInSpaces⟩,
                  SameText.dropWhile hToken hInSpaces⟩

/- The whole files. -/
theorem parseChunkLoop_same
    (k i : Nat)
    {chunks chunks' : Nat → ChunkLine}
    (hLines : ∀ j, SameEntry (chunks j) (chunks' j))
    {inp inp' : List Char}
    (hText : SameText inp inp') :
    (parseChunkLoop k i chunks inp).1 =
        (parseChunkLoop k i chunks' inp').1 ∧
      ∀ j,
        SameEntry ((parseChunkLoop k i chunks inp).2 j)
          ((parseChunkLoop k i chunks' inp').2 j) := by
  induction k generalizing i chunks chunks' inp inp' with
  | zero => exact ⟨rfl, hLines⟩
  | succ k ih =>
      have hScan := fscanfLine_same (hLines i) hText
      simp only [parseChunkLoop]
      generalize fscanfLine (chunks i) inp = out at hScan ⊢
      generalize fscanfLine (chunks' i) inp' = out' at hScan ⊢
      cases hScan with
      | none => exact ⟨rfl, hLines⟩
      | some hOut =>
          apply ih (i + 1) _ hOut.2
          intro j
          by_cases hj : j = i
          · subst hj
            rw [Function.update_self, Function.update_self]
            exact ⟨rfl, hOut.1.id, hOut.1.sha1⟩
          · rw [Function.update_of_ne hj,
              Function.update_of_ne hj]
            exact hLines j

/- Entries past the end are left over. -/
theorem parseChunkLoop_rest
    (k i : Nat)
    (chunks : Nat → ChunkLine)
    (inp : List Char)
    {j : Nat}
    (hj : (parseChunkLoop k i chunks inp).1 ≤ j) :
    (parseChunkLoop k i chunks inp).2 j = chunks j := by
  induction k generalizing i chunks inp with
  | zero => rfl
  | succ k ih =>
      cases hScan : fscanfLine (chunks i) inp with
      | none =>
          simp only [parseChunkLoop, hScan]
      | some out =>
          have hMore :=
            (parseChunkLoop_spec k (i + 1)
              (Function.update chunks i
                { out.1 with state := .unfetched }) out.2).1
          simp only [parseChunkLoop, hScan] at hj ⊢
          have hLater := Nat.le_trans hMore hj
          rw [ih (i + 1) _ _ hj]
          exact Function.update_of_ne (by omega) _ _

/-
  The entries of both or of neither list are spelled as
  `binary2hex` spells them.
-/
def SameCase (cl cl' : ChunkList) : Prop :=
  ∀ i, i < cl.count →
    (IsHashString ((cl.chunks i).sha1.take sha1HashStrSize) ↔
      IsHashString ((cl'.chunks i).sha1.take sha1HashStrSize))

/- Files that can both be opened, or neither. -/
def SameFile : Option (List Char) → Option (List Char) → Prop :=
  Option.Rel SameText

/- Reading two spellings of one file. -/
theorem parseChunk_same
    {cl cl' : ChunkList}
    (hList : SameList cl cl')
    {file file' : Option (List Char)}
    (hFile : SameFile file file')
    (hCase :
      ∀ out out', parseChunk cl file = some out →
        parseChunk cl' file' = some out' →
          SameCase out out') :
    Option.Rel SameList (parseChunk cl file)
      (parseChunk cl' file') := by
  cases hFile with
  | none => exact .none
  | @some text text' hText =>
      rcases parseChunkLoop_same maxChunkNum 0
          (fun j =>
            ⟨(hList.line j).state, (hList.line j).id,
              (hList.line j).sha1.text⟩) hText with
        ⟨hCount, hLines⟩
      have hCases := hCase _ _ rfl rfl
      refine .some ⟨hCount, ?_⟩
      intro j
      refine ⟨(hLines j).state, (hLines j).id,
        (hLines j).sha1, ?_⟩
      by_cases hj :
          j < (parseChunkLoop maxChunkNum 0 cl.chunks text).1
      · exact hCases j hj
      · have hPast := Nat.le_of_not_lt hj
        have hPast' := hPast
        rw [hCount] at hPast'
        dsimp only
        rw [parseChunkLoop_rest _ _ _ _ hPast,
          parseChunkLoop_rest _ _ _ _ hPast']
        exact (hList.line j).sha1.lower

end BtPeer
