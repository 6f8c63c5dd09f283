import PageTemplate.Proofs.Numerals
import PageTemplate.Proofs.Stretches

namespace PageTemplate

def LexFault.Arises : LexFault → Char → List Char → Prop
  | .unterminatedString, c, rest => c = '"' ∧ '"' ∉ rest
  | .numberOutOfRange digits, c, rest =>
    c.isDigit = true ∧ digits.toList = c :: rest.takeWhile Char.isDigit ∧
      Int64.maxValue.toInt < Text.placeValue digits.toList
  | .unexpectedChar found, c, rest =>
    found = c ∧ Text.isBlank c = false ∧ c ≠ '"' ∧ c.isDigit = false ∧
      Lexeme.isWordStart c = false ∧ Lexeme.isSymbol c = false ∧
      (∀ operator ∈ Lexeme.operators, ¬operator.2.toList <+: c :: rest) ∧
      ∀ d : Delimiter, ¬d.spelling.toList <+: c :: rest

/-- The character belongs to the token in front of it: a digit to a word or a number, a dot in front
of a word to a word, and a colon to two opening braces. -/
def TokenKind.Continues (kind : TokenKind) (c : Char) (rest : List Char) : Prop :=
  match kind with
  | .identifier _ | .dottedName _ | .bool _ | .keyword _ =>
    c.isDigit = true ∨ c = '.' ∧ ∃ d ∈ rest.head?, Lexeme.isWordStart d = true
  | .number _ => c.isDigit = true
  | .delimiter .blockOpen => c = ':'
  | _ => False

/-- A token of the line whose spelling ends where the characters end. -/
def TokenKind.EndsIn (kind : TokenKind) (line : Nat) (tokens : List Token) (cs : List Char) :
    Prop :=
  ∃ front spelling, cs = front ++ spelling ∧ kind.SpelledBy spelling ∧
    ⟨kind, ⟨line, front.length + 1⟩⟩ ∈ tokens

namespace Lexeme

variable {c : Char} {rest : List Char} {fault : LexFault}

/-- A lexeme is spelled by the characters at its place. -/
theorem Spells.isPrefix {lexeme : Lexeme} {kind : TokenKind} (h : lexeme.Spells c rest kind) :
    ∃ spelling, kind.SpelledBy spelling ∧ spelling <+: c :: rest := by
  obtain ⟨more, -, -, hspelled⟩ := h
  exact ⟨_, hspelled, List.cons_prefix_cons.2 ⟨rfl, List.take_prefix more rest⟩⟩

theorem closing?_eq_none_iff :
    closing? c rest = none ↔ ¬Delimiter.blockClose.spelling.toList <+: c :: rest := by
  constructor
  · rintro h ⟨tail, htail⟩
    cases htail
    cases h
  · intro h
    rw [Option.eq_none_iff_forall_ne_some]
    intro lexeme hlexeme
    obtain ⟨spelling, rfl, hprefix⟩ := (closing_spells hlexeme).isPrefix
    exact h hprefix

theorem opening?_eq_none_iff :
    opening? c rest = none ↔
      ∀ d : Delimiter, d ≠ .blockClose → ¬d.spelling.toList <+: c :: rest := by
  constructor
  · rintro h d hopens ⟨tail, htail⟩
    cases d with
    | blockOpen =>
      cases htail
      unfold opening? at h
      split at h
      · cases h
      · cases h
      · next hno => exact hno tail rfl rfl
    | printOpen =>
      cases htail
      cases h
    | blockClose => exact hopens rfl
  · intro h
    rw [Option.eq_none_iff_forall_ne_some]
    intro lexeme hlexeme
    obtain ⟨d, hopens, hspells⟩ := opening_spells hlexeme
    obtain ⟨spelling, rfl, hprefix⟩ := hspells.isPrefix
    exact h d hopens hprefix

theorem operator?_eq_none_iff :
    operator? c rest = none ↔ ∀ operator ∈ operators, ¬operator.2.toList <+: c :: rest := by
  constructor
  · intro h operator hmem ⟨tail, htail⟩
    unfold operator? at h
    split at h <;> try cases h
    -- what begins with an operator falls under none of the cases above
    simp only [operators, List.mem_cons, List.not_mem_nil, or_false] at hmem
    rcases hmem with rfl | rfl | rfl | rfl | rfl | rfl | rfl | rfl | rfl | rfl | rfl | rfl | rfl |
      rfl | rfl <;>
    · simp at htail
      obtain ⟨rfl, rfl⟩ := htail
      simp_all
  · intro h
    rw [Option.eq_none_iff_forall_ne_some]
    intro lexeme hlexeme
    obtain ⟨cls, spelling, hspells⟩ := operator_spells hlexeme
    obtain ⟨cs, ⟨hmem, rfl⟩, hprefix⟩ := hspells.isPrefix
    exact h _ hmem hprefix

/-- No mark begins at a place if no operator and no delimiter stands there. -/
theorem begins_eq_none_iff :
    (closing? c rest <|> opening? c rest <|> operator? c rest) = none ↔
      (∀ operator ∈ operators, ¬operator.2.toList <+: c :: rest) ∧
        ∀ d : Delimiter, ¬d.spelling.toList <+: c :: rest := by
  simp only [Option.orElse_eq_orElse, Option.orElse_eq_or, Option.or_eq_none_iff,
    closing?_eq_none_iff, opening?_eq_none_iff, operator?_eq_none_iff]
  constructor
  · rintro ⟨hclosing, hopening, hoperator⟩
    refine ⟨hoperator, fun d => ?_⟩
    by_cases hd : d = .blockClose
    · rwa [hd]
    · exact hopening d hd
  · rintro ⟨hoperator, hdelimiter⟩
    exact ⟨hdelimiter _, fun d _ => hdelimiter d, hoperator⟩

/-- A string literal fails for want of a closing quote only. -/
theorem stringLiteral_eq_error_iff :
    stringLiteral rest = .error fault ↔ fault = .unterminatedString ∧ '"' ∉ rest := by
  have hall : (rest.takeWhile (· != '"')).length = rest.length ↔ '"' ∉ rest := calc
    _ ↔ rest.takeWhile (· != '"') = rest :=
      ⟨(List.takeWhile_prefix _).eq_of_length, congrArg List.length⟩
    _ ↔ ∀ d ∈ rest, (d != '"') = true := List.takeWhile_eq_self_iff
    _ ↔ '"' ∉ rest := by simp [List.forall_mem_ne']
  unfold stringLiteral
  dsimp only
  split
  · next h => simp [hall.1 h, eq_comm]
  · next h => simp [Decidable.not_not.1 (mt hall.2 h)]

/-- A number fails if it is too large, and the whole run of digits is blamed. -/
theorem number_eq_error_iff :
    number c rest = .error fault ↔
      fault = .numberOutOfRange (String.ofList (c :: rest.takeWhile Char.isDigit)) ∧
        Int64.maxValue.toInt < Text.placeValue (c :: rest.takeWhile Char.isDigit) := by
  have hmin : Int64.minValue.toInt ≤ 0 := by decide
  unfold number
  dsimp only
  rw [Text.ofDigitChars_zero]
  split
  · next value hvalue =>
    have hle := Int64.toInt_le value
    rw [int64_eq_some.1 hvalue] at hle
    exact ⟨nofun, fun h => absurd hle (Int.not_le.2 h.2)⟩
  · next hnone =>
    have hrange := int64_eq_none.1 hnone
    have hlarge : Int64.maxValue.toInt < Text.placeValue (c :: rest.takeWhile Char.isDigit) := by
      omega
    simp [hlarge, eq_comm]

/-- No token begins at a place just if the fault arises there. -/
theorem inside_eq_error_iff : inside c rest = .error fault ↔ fault.Arises c rest := by
  constructor
  · intro h
    -- three of the branches end in a fault; what the tests have excluded before is the last one
    unfold inside at h
    split at h
    · cases h
    · next hblank =>
      split at h
      · cases h
      · next hbegins =>
        split at h
        · cases h
        · next hsymbol =>
          split at h
          · cases h
          · next hstart =>
            split at h
            · next hquote =>
              obtain ⟨rfl, hopen⟩ := stringLiteral_eq_error_iff.1 h
              exact ⟨hquote, hopen⟩
            · next hquote =>
              split at h
              · next hdigit =>
                obtain ⟨rfl, hlarge⟩ := number_eq_error_iff.1 h
                exact ⟨hdigit, String.toList_ofList, by rwa [String.toList_ofList]⟩
              · next hdigit =>
                cases h
                obtain ⟨hoperator, hdelimiter⟩ := begins_eq_none_iff.1 hbegins
                exact ⟨rfl, Bool.eq_false_iff.2 hblank, hquote, Bool.eq_false_iff.2 hdigit,
                  Bool.eq_false_iff.2 hstart, Bool.eq_false_iff.2 hsymbol, hoperator, hdelimiter⟩
  · intro h
    cases fault with
    | unterminatedString =>
      obtain ⟨rfl, hopen⟩ := h
      exact stringLiteral_eq_error_iff.2 ⟨rfl, hopen⟩
    | numberOutOfRange digits =>
      obtain ⟨hdigit, hdigits, hlarge⟩ := h
      rw [inside_of_isDigit hdigit, number_eq_error_iff, ← hdigits, String.ofList_toList]
      exact ⟨rfl, hlarge⟩
    | unexpectedChar found =>
      obtain ⟨rfl, hblank, hquote, hdigit, hstart, hsymbol, hbegins⟩ := h
      rw [inside, if_neg (Bool.eq_false_iff.1 hblank), begins_eq_none_iff.2 hbegins]
      dsimp only
      rw [if_neg (Bool.eq_false_iff.1 hsymbol), if_neg (Bool.eq_false_iff.1 hstart),
        if_neg hquote, if_neg (Bool.eq_false_iff.1 hdigit)]

end Lexeme

/-! ### What goes on at a place where nothing begins -/

namespace LexFault.Arises

variable {fault : LexFault} {kind : TokenKind} {c : Char} {rest : List Char}

/-- A word can always be read. -/
theorem not_wordStart (h : fault.Arises c rest) : Lexeme.isWordStart c = false := by
  cases fault with
  | unterminatedString =>
    obtain ⟨rfl, -⟩ := h
    rfl
  | numberOutOfRange digits => exact Lexeme.not_wordStart_of_isDigit h.1
  | unexpectedChar found => exact h.2.2.2.2.1

theorem ne_equals (h : fault.Arises c rest) : c ≠ '=' := by
  rintro rfl
  cases fault with
  | unterminatedString => exact absurd h.1 (by decide)
  | numberOutOfRange digits => exact absurd h.1 (by decide)
  | unexpectedChar found =>
    -- a single equals sign is an operator itself
    obtain ⟨-, -, -, -, -, -, hoperator, -⟩ := h
    apply hoperator (.assign, "=") (by decide)
    exact ⟨rest, rfl⟩

theorem wordGoesOn_iff (h : fault.Arises c rest) :
    Lexeme.wordGoesOn (c :: rest) = true ↔
      c.isDigit = true ∨ c = '.' ∧ ∃ d ∈ rest.head?, Lexeme.isWordStart d = true := by
  by_cases hdot : c = '.'
  · subst hdot
    cases rest with
    | nil => simp [Lexeme.wordGoesOn, Lexeme.isWordChar, Char.isAlphanum, Char.isAlpha,
        Char.isUpper, Char.isLower, Char.isDigit]
    | cons d rest => simp [Lexeme.wordGoesOn, Char.isDigit]
  · have hstart := h.not_wordStart
    simp only [Lexeme.isWordStart, Bool.or_eq_false_iff] at hstart
    rw [Lexeme.wordGoesOn_cons hdot]
    simp [Lexeme.isWordChar, Char.isAlphanum, hstart, hdot]

/-- A token that ends before a fault would not have gone on with it. -/
theorem not_continues (h : fault.Arises c rest) (hends : kind.EndsBefore (c :: rest)) :
    ¬kind.Continues c rest := by
  intro hcontinues
  cases kind with
  | identifier | dottedName | bool | keyword =>
    have hstops : Lexeme.wordGoesOn (c :: rest) = false := hends
    rw [h.wordGoesOn_iff.2 hcontinues] at hstops
    cases hstops
  | number value =>
    have hdigit := hends c rfl
    rw [hcontinues] at hdigit
    cases hdigit
  | delimiter d =>
    cases d with
    | blockOpen => exact hends (congrArg some hcontinues)
    | printOpen | blockClose => exact hcontinues
  | operator | string | symbol | text | endOfLine => exact hcontinues

/-- Only the characters that have been named go on with a token there. -/
theorem endsBefore (h : fault.Arises c rest) (htext : ∀ content, kind ≠ .text content)
    (hcontinues : ¬kind.Continues c rest) : kind.EndsBefore (c :: rest) := by
  cases kind with
  | operator cls spelling => exact fun _ hequals => h.ne_equals (Option.some.inj hequals)
  | identifier | dottedName | bool | keyword =>
    exact Bool.eq_false_iff.2 (mt h.wordGoesOn_iff.1 hcontinues)
  | number value =>
    rintro d ⟨⟩
    exact Bool.eq_false_iff.2 hcontinues
  | delimiter d =>
    cases d with
    | blockOpen => exact fun hcolon => hcontinues (Option.some.inj hcolon)
    | printOpen | blockClose => trivial
  | text content => exact absurd rfl (htext content)
  | string | symbol | endOfLine => trivial

end LexFault.Arises

namespace Stretch

variable {inBlock : Bool} {stretches before behind : List Stretch} {kind : TokenKind}
  {cs : List Char}

/-- A block is opened with two characters at least. -/
theorem two_le_of_open (hplaced : Placed false stretches)
    (hopen : inBlockAfter false stretches = true) :
    2 ≤ (stretches.flatMap chars).length := by
  have hdelimiter : ∃ d, (stretches.filterMap delimiter?).getLast? = some d := by
    rw [← Option.isSome_iff_exists, ← Bool.not_eq_false, Option.isSome_eq_false_iff,
      Option.isNone_iff_eq_none]
    intro hnone
    rw [inBlockAfter, hnone] at hopen
    cases hopen
  obtain ⟨d, hlast⟩ := hdelimiter
  obtain ⟨stretch, hmem, hd⟩ := List.mem_filterMap.1 (List.mem_of_getLast? hlast)
  obtain ⟨before, behind, rfl⟩ := List.append_of_mem hmem
  have hfits := hplaced before stretch behind rfl
  have htwo : 2 ≤ stretch.chars.length := by
    cases stretch with
    | blank c => cases hd
    | token kind cs =>
      cases kind with
      | delimiter e =>
        obtain ⟨rfl, -⟩ := hfits
        show 2 ≤ e.spelling.toList.length
        cases e <;> decide
      | _ => cases hd
  rw [List.flatMap_append, List.flatMap_cons, List.length_append, List.length_append]
  omega

/-- Text does not open a block, so none stands at the end of a line that leaves a block open. -/
theorem ne_text_of_open (hplaced : Placed inBlock (before ++ [.token kind cs]))
    (hopen : inBlockAfter inBlock (before ++ [.token kind cs]) = true) :
    ∀ content, kind ≠ .text content := by
  rintro content rfl
  -- what is behind a text is outside the blocks, as the text itself is
  have houtside := (hplaced before _ [] rfl).outside_of_text
  rw [inBlockAfter_append, inBlockAfter_token, houtside] at hopen
  cases hopen

/-- If a block is open where the characters end, they can be read without what is behind them. -/
theorem Ended.of_open {rest : List Char} (hended : Ended rest stretches)
    (hplaced : Placed inBlock stretches) (hopen : inBlockAfter inBlock stretches = true) :
    Ended [] stretches := by
  intro before stretch behind hsplit
  have hends := hended before stretch behind hsplit
  subst hsplit
  cases stretch with
  | blank c => trivial
  | token kind cs =>
    rw [List.append_nil]
    by_cases htext : ∀ content, kind ≠ .text content
    · exact TokenKind.EndsBefore.of_append hends htext
    · -- a text ends in front of the delimiter that opens the next block
      obtain ⟨content, rfl⟩ : ∃ content, kind = .text content := by simpa using htext
      have houtside := (hplaced before _ behind rfl).outside_of_text
      rw [inBlockAfter_append, inBlockAfter_cons, inBlockAfter_token, houtside] at hopen
      have hbehind := hplaced.behind
      rw [inBlockAfter_token, houtside] at hbehind
      have htwo := two_le_of_open hbehind hopen
      rcases hends with hnil | ⟨hopens, hlast⟩
      · rw [(List.append_eq_nil_iff.1 hnil).1] at htwo
        exact absurd htwo (by decide)
      · exact .inr ⟨List.prefix_of_prefix_length_le hopens (List.prefix_append _ _) htwo, hlast⟩

/-- Characters at which nothing begins cut no token off but the last, which they may go on with. -/
theorem Ended.before_fault {fault : LexFault} {c : Char} {rest : List Char}
    (hended : Ended [] stretches) (hplaced : Placed inBlock stretches)
    (hopen : inBlockAfter inBlock stretches = true) (harises : fault.Arises c rest)
    (hlast : ∀ before kind cs, stretches = before ++ [.token kind cs] → ¬kind.Continues c rest) :
    Ended (c :: rest) stretches := by
  intro before stretch behind hsplit
  have hends := hended before stretch behind hsplit
  subst hsplit
  cases stretch with
  | blank c => trivial
  | token kind cs =>
    rw [List.append_nil] at hends
    by_cases hbehind : behind = []
    · subst hbehind
      exact harises.endsBefore (ne_text_of_open hplaced hopen) (hlast before kind cs rfl)
    · -- one character behind a token tells that it ends, unless it is a dot with a word behind it
      have hne : behind.flatMap chars ≠ [] := mt hplaced.behind.eq_nil hbehind
      refine TokenKind.EndsBefore.append hends hne fun _ d hd => ?_
      obtain rfl : c = d := Option.some.inj hd
      exact harises.not_wordStart

/-- The token that ends where a line ends is that of its last stretch. -/
theorem endsIn_iff {line : Nat} {rest : List Char} {found : List Token} {pos : Position}
    (hplaced : Placed inBlock stretches) (hended : Ended rest stretches)
    (hkind : kind ≠ .endOfLine) (hfound : found = tokens line 1 stretches ++ [⟨.endOfLine, pos⟩]) :
    kind.EndsIn line found (stretches.flatMap chars) ↔
      ∃ before cs, stretches = before ++ [.token kind cs] := by
  have hmem {column : Nat} : ⟨kind, ⟨line, column⟩⟩ ∈ found ↔
      ⟨kind, ⟨line, column⟩⟩ ∈ tokens line 1 stretches := by
    rw [hfound, List.mem_append, List.mem_singleton]
    simp [hkind]
  constructor
  · rintro ⟨front, spelling, hchars, hspelled, htoken⟩
    obtain ⟨before, kind', cs, behind, rfl, heq⟩ := mem_tokens_iff.1 (hmem.1 htoken)
    obtain ⟨rfl, hcolumn⟩ :
        kind = kind' ∧ front.length + 1 = 1 + (before.flatMap chars).length := by
      simpa using heq
    -- it begins in the same column, so its spelling is that of the stretch and what is behind
    rw [List.flatMap_append, List.flatMap_cons] at hchars
    obtain ⟨-, hspelling⟩ := List.append_inj hchars (by omega)
    have hcs := (hplaced before _ behind rfl).1
    have hends := hended before _ behind rfl
    rw [← hspelling] at hspelled
    -- it ended before that, so there is nothing behind
    have hnil := hcs.eq_nil_of_append hspelled hends
    exact ⟨before, cs, by rw [hplaced.behind.eq_nil hnil]⟩
  · rintro ⟨before, cs, rfl⟩
    refine ⟨before.flatMap chars, cs, by simp [chars], (hplaced before _ [] rfl).1, ?_⟩
    rw [hmem, mem_tokens_iff]
    exact ⟨before, kind, cs, [], rfl, by rw [Nat.add_comm]⟩

end Stretch

theorem Lexer.readLine_fst (lexer : Lexer) (line : List Char) :
    (lexer.readLine line).1 = (scan (lexer.line + 1) lexer.inBlock 1 line).1 := rfl

/-- Where a line cannot be read. It is at a place inside a block up to which the line can be read by
itself, at which nothing begins, and at which the token in front does not go on; and what the fault
is depends on what stands there. -/
theorem faults_are_exact (lexer : Lexer) (line : List Char) (e : LexError) :
    (lexer.readLine line).1 = .error e ↔
      ∃ before c after tokens, line = before ++ c :: after ∧
        lexer.readLine before = (.ok tokens, ⟨lexer.line + 1, true⟩) ∧
        (∀ kind : TokenKind, kind.EndsIn (lexer.line + 1) tokens before →
          ¬kind.Continues c after) ∧
        e.fault.Arises c after ∧ e.pos = ⟨lexer.line + 1, before.length + 1⟩ := by
  rw [Lexer.readLine_fst, Lexer.scan_eq_error_iff]
  constructor
  · -- the stretches in front of the fault can be read without it, as a block is open behind them
    rintro ⟨stretches, c, after, rfl, hplaced, hended, hopen, hfault, hpos⟩
    have harises := Lexeme.inside_eq_error_iff.1 hfault
    have hread := Lexer.readLine_eq_ok_iff.2
      ⟨stretches, rfl, hplaced, hended.of_open hplaced hopen, rfl, rfl⟩
    rw [hopen] at hread
    refine ⟨_, c, after, _, rfl, hread, fun kind hin => ?_, harises,
      by rw [hpos, Nat.add_comm 1]⟩
    by_cases hkind : kind = .endOfLine
    · subst hkind
      exact id
    · obtain ⟨before, cs, rfl⟩ := (Stretch.endsIn_iff hplaced hended hkind rfl).1 hin
      exact harises.not_continues (hended before _ [] rfl)
  · -- and the fault cuts none of them off, the last one by what has been asked of it
    rintro ⟨before, c, after, tokens, rfl, hread, hlast, harises, hpos⟩
    obtain ⟨stretches, rfl, hplaced, hended, htokens, hnext⟩ := Lexer.readLine_eq_ok_iff.1 hread
    have hopen : Stretch.inBlockAfter lexer.inBlock stretches = true := by
      rw [Lexer.mk.injEq] at hnext
      exact hnext.2.symm
    refine ⟨stretches, c, after, rfl, hplaced, ?_, hopen, Lexeme.inside_eq_error_iff.2 harises,
      by rw [hpos, Nat.add_comm 1]⟩
    refine hended.before_fault hplaced hopen harises fun front kind cs hsplit => ?_
    by_cases hkind : kind = .endOfLine
    · subst hkind
      exact id
    · exact hlast kind ((Stretch.endsIn_iff hplaced hended hkind htokens).2 ⟨front, cs, hsplit⟩)

/-- Columns count characters. The last dot has no word behind it. -/
example : (Lexer.readLine {} "é\x7b\x7b a.b.1".toList).1 =
    .error ⟨.unexpectedChar '.', ⟨1, 8⟩⟩ := by
  cbv

end PageTemplate
