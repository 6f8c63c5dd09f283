import PageTemplate.Proofs.Spelling

namespace PageTemplate

def Lexeme.wordGoesOn : List Char → Bool
  | '.' :: c :: _ => isWordStart c
  | c :: _ => isWordChar c
  | [] => false

/-- Nothing that follows goes on with the token. A text goes on up to the next opening delimiter, so
it does not end with the first brace of one. -/
def TokenKind.EndsBefore : TokenKind → List Char → Prop
  | .operator _ spelling, rest => spelling ∈ ["=", "!", "<", ">"] → rest.head? ≠ some '='
  | .identifier _, rest | .dottedName _, rest | .bool _, rest | .keyword _, rest =>
    Lexeme.wordGoesOn rest = false
  | .number _, rest => ∀ c ∈ rest.head?, c.isDigit = false
  | .delimiter .blockOpen, rest => rest.head? ≠ some ':'
  | .text content, rest =>
    rest = [] ∨ ['{', '{'] <+: rest ∧ content.toList.getLast? ≠ some '{'
  | _, _ => True

theorem TokenKind.endsBefore_text_iff {content : String} {rest : List Char} :
    (text content).EndsBefore rest ↔
      rest = [] ∨ ['{', '{'] <+: rest ∧ content.toList.getLast? ≠ some '{' := Iff.rfl

namespace Lexeme
variable {c : Char} {cs rest : List Char} {kind : TokenKind}

def isStop (c : Char) : Bool := Text.isBlank c || c == '}'

/-- The next character, if any, goes on with no token. -/
def Stops (rest : List Char) : Prop := ∀ c ∈ rest.head?, isStop c = true

theorem code_of_isWordChar (h : isWordChar c = true) : 48 ≤ c.toNat ∧ c.toNat ≤ 122 := by
  delta isWordChar Char.isAlphanum Char.isAlpha Char.isUpper Char.isLower Char.isDigit at h
  simp only [UInt32.le_iff_toNat_le, ge_iff_le, Bool.or_eq_true, Bool.and_eq_true,
    decide_eq_true_eq, beq_iff_eq] at h
  change 48 ≤ c.val.toNat ∧ c.val.toNat ≤ 122
  rcases h with ((⟨hlow, hhigh⟩ | ⟨hlow, hhigh⟩) | ⟨hlow, hhigh⟩) | rfl
  · exact ⟨Nat.le_trans (by decide) hlow, Nat.le_trans hhigh (by decide)⟩
  · exact ⟨Nat.le_trans (by decide) hlow, Nat.le_trans hhigh (by decide)⟩
  · exact ⟨Nat.le_trans (by decide) hlow, Nat.le_trans hhigh (by decide)⟩
  · decide

theorem not_wordStart_of_isDigit (h : c.isDigit = true) : isWordStart c = false := by
  have hhigh : c.val.toNat ≤ 57 := (Char.isDigit_iff_toNat.1 h).2
  rw [Bool.eq_false_iff]
  intro hstart
  delta isWordStart Char.isAlpha Char.isUpper Char.isLower at hstart
  simp only [UInt32.le_iff_toNat_le, ge_iff_le, Bool.or_eq_true, Bool.and_eq_true,
    decide_eq_true_eq, beq_iff_eq] at hstart
  rcases hstart with (⟨hlow, -⟩ | ⟨hlow, -⟩) | rfl
  · exact absurd (Nat.le_trans hlow hhigh) (by decide)
  · exact absurd (Nat.le_trans hlow hhigh) (by decide)
  · cases h

theorem isBlank_eq_false_of_code (hlow : 33 ≤ c.toNat) (hhigh : c.toNat ≤ 126) :
    Text.isBlank c = false := by
  rw [Bool.eq_false_iff]
  intro hblank
  simp [Text.isBlank, Text.inRanges, Text.blankRanges] at hblank
  omega

theorem isStop_of_isWordChar (h : isWordChar c = true) : isStop c = false := by
  obtain ⟨hlow, hhigh⟩ := code_of_isWordChar h
  have hbrace : c ≠ '}' := by
    rintro rfl
    cases h
  simp [isStop, isBlank_eq_false_of_code (Nat.le_trans (by decide) hlow) (by omega), hbrace]

def marks : List Char := ['{', '}', '=', '!', '<', '>', '|', '&', '+', '-', '*', '/', '%']

/-- A character that no mark begins with begins none, whatever follows. -/
theorem unmarked (h : c ∉ marks) (rest : List Char) :
    (closing? c rest <|> opening? c rest <|> operator? c rest) = none := by
  have hclosing : closing? c rest = none := by
    unfold closing?
    split
    · exact absurd (by decide) h
    · rfl
  have hopening : opening? c rest = none := by
    unfold opening?
    split
    · exact absurd (by decide) h
    · exact absurd (by decide) h
    · rfl
  have hoperator : operator? c rest = none := by
    unfold operator?
    split <;> first | rfl | exact absurd (by decide) h
  rw [hclosing, hopening, hoperator]
  rfl

theorem not_marked_of_isWordChar (h : isWordChar c = true) : c ∉ marks := by
  intro hmem
  have hfalse : ∀ c ∈ marks, isWordChar c = false := by simp [marks, isWordChar]
  rw [hfalse c hmem] at h
  cases h

theorem not_symbol_of_isWordChar (h : isWordChar c = true) : isSymbol c = false := by
  rw [Bool.eq_false_iff]
  intro hsymbol
  simp only [isSymbol, Bool.or_eq_true, beq_iff_eq] at hsymbol
  rcases hsymbol with ((rfl | rfl) | rfl) | rfl <;> cases h

/-- A run of characters of one sort ends where another sort begins. -/
theorem takeWhile_append_stops {p : Char → Bool} (hall : ∀ c ∈ cs, p c = true)
    (hstops : ∀ d ∈ rest.head?, p d = false) :
    (cs ++ rest).takeWhile p = cs ∧ (cs ++ rest).dropWhile p = rest := by
  rw [List.takeWhile_append_of_pos hall, List.dropWhile_append_of_pos hall]
  cases rest with
  | nil => simp
  | cons d rest =>
    have hd : p d = false := hstops d rfl
    simp [hd]

/-- Words are made of letters, digits and underscores. -/
theorem IsWord.all {word : List Char} (h : IsWord word) : ∀ c ∈ word, isWordChar c = true := by
  obtain ⟨first, rest, rfl, hfirst, hrest⟩ := h
  exact List.forall_mem_cons.2 ⟨isWordChar_of_isWordStart hfirst, hrest⟩

theorem Stops.not_wordChar (h : Stops rest) : ∀ d ∈ rest.head?, isWordChar d = false := by
  intro d hd
  rw [Bool.eq_false_iff]
  intro hword
  have hstop := h d hd
  rw [isStop_of_isWordChar hword] at hstop
  cases hstop

/-- At white space and at closing braces every token of a block ends. -/
theorem Stops.endsBefore (h : Stops rest) (hstands : kind.Stands true) :
    kind.EndsBefore rest := by
  have hhead {d : Char} (hd : isStop d = false) : rest.head? ≠ some d := by
    intro hsome
    have hstop := h d hsome
    rw [hd] at hstop
    cases hstop
  have hword : wordGoesOn rest = false := by
    unfold wordGoesOn
    split
    · exact absurd rfl (hhead (by decide))
    · next d _ _ => exact h.not_wordChar d rfl
    · rfl
  have hdigit : ∀ d ∈ rest.head?, d.isDigit = false := by
    intro d hd
    have hfalse := h.not_wordChar d hd
    simp only [isWordChar, Char.isAlphanum, Bool.or_eq_false_iff] at hfalse
    exact hfalse.1.2
  cases kind with
  | operator cls spelling => exact fun _ => hhead (by decide)
  | identifier | dottedName | bool | keyword => exact hword
  | number => exact hdigit
  | delimiter d =>
    cases d with
    | blockOpen => exact hhead (by decide)
    | printOpen | blockClose => trivial
  | text content => exact absurd rfl (hstands.1 content)
  | string | symbol | endOfLine => trivial

/-- Words with dots between begin as the first of them does. -/
theorem exists_wordStart {words : List (List Char)} (hne : words ≠ [])
    (h : ∀ word ∈ words, IsWord word) :
    ∃ first letters, ['.'].intercalate words = first :: letters ∧ isWordStart first = true := by
  obtain ⟨word, others, rfl⟩ := List.exists_cons_of_ne_nil hne
  obtain ⟨first, rest, rfl, hfirst, -⟩ := h _ List.mem_cons_self
  by_cases hothers : others = []
  · subst hothers
    exact ⟨first, rest, List.intercalate_singleton, hfirst⟩
  · rw [List.intercalate_cons_of_ne_nil hothers]
    exact ⟨first, _, rfl, hfirst⟩

theorem not_wordChar_of_wordGoesOn (h : wordGoesOn rest = false) :
    ∀ d ∈ rest.head?, isWordChar d = false := by
  rintro d hd
  unfold wordGoesOn at h
  split at h
  · cases hd
    rfl
  · cases hd
    exact h
  · cases hd

/-- Words joined by dots are read as they are where nothing goes on behind them. -/
theorem dottedWords_append {words : List (List Char)} (hne : words ≠ [])
    (h : ∀ word ∈ words, IsWord word) (hends : wordGoesOn rest = false) :
    dottedWords (['.'].intercalate words ++ rest) = words := by
  induction words with
  | nil => exact absurd rfl hne
  | cons word words ih =>
    obtain ⟨hword, hwords⟩ := List.forall_mem_cons.1 h
    -- behind the last word a dot may still follow, but no word after it
    by_cases hlast : words = []
    · subst hlast
      rw [List.intercalate_singleton]
      obtain ⟨htake, hdrop⟩ :=
        takeWhile_append_stops hword.all (not_wordChar_of_wordGoesOn hends)
      rw [dottedWords]
      split
      · next c tail hrest =>
        rw [hdrop] at hrest
        subst hrest
        have hstart : isWordStart c = false := hends
        rw [if_neg (by simp [hstart]), htake]
      · rw [htake]
    · obtain ⟨first, letters, hcons, hfirst⟩ := exists_wordStart hlast hwords
      have hdot : ∀ d ∈ ('.' :: (first :: letters ++ rest)).head?, isWordChar d = false := by
        rintro d ⟨⟩
        rfl
      obtain ⟨htake, hdrop⟩ := takeWhile_append_stops hword.all hdot
      have hsplit : ['.'].intercalate (word :: words) ++ rest =
          word ++ '.' :: (first :: letters ++ rest) := by
        rw [List.intercalate_cons_of_ne_nil hlast, hcons]
        simp
      have hlater := ih hlast hwords
      rw [hcons] at hlater
      rw [hsplit, dottedWords]
      split
      · next c tail hrest =>
        rw [hdrop] at hrest
        cases hrest
        rw [if_pos hfirst, htake]
        exact congrArg (word :: ·) hlater
      · next hno => exact absurd hdrop (hno first (letters ++ rest))

/-- A dotted name is read up to its end, as long as no word goes on there. -/
theorem name_append {words : List (List Char)} (hne : words ≠ [])
    (h : ∀ word ∈ words, IsWord word) (hends : wordGoesOn rest = false)
    (hjoined : ['.'].intercalate words = c :: cs) :
    inside c (cs ++ rest) = .ok (.token (ofWords (words.map String.ofList)) cs.length) := by
  obtain ⟨first, letters, hcons, hfirst⟩ := exists_wordStart hne h
  rw [hjoined] at hcons
  obtain ⟨rfl, -⟩ := List.cons.inj hcons
  have hword := isWordChar_of_isWordStart hfirst
  have hblank : Text.isBlank c = false := by
    obtain ⟨hlow, hhigh⟩ := code_of_isWordChar hword
    exact isBlank_eq_false_of_code (by omega) (by omega)
  have hsymbol := not_symbol_of_isWordChar hword
  have hwords := dottedWords_append hne h hends
  rw [hjoined, List.cons_append] at hwords
  rw [inside, if_neg (by simp [hblank]), unmarked (not_marked_of_isWordChar hword)]
  dsimp only
  rw [if_neg (by simp [hsymbol]), if_pos hfirst, name, hwords]
  simp [hjoined]

theorem ofWords_identifier {name : String} (h : isReserved name = false) :
    ofWords [name] = .identifier name := by
  simp only [isReserved, Bool.or_eq_false_iff, decide_eq_false_iff_not, Option.isSome_eq_false_iff,
    Option.isNone_iff_eq_none] at h
  obtain ⟨⟨hkeyword, htrue⟩, hfalse⟩ := h
  simp [ofWords, hkeyword, htrue, hfalse]

/-- Several words are never a reserved word. -/
theorem ofWords_dottedName {parts : List String} (h : 2 ≤ parts.length) :
    ofWords parts = .dottedName parts := by
  match parts, h with
  | first :: second :: others, _ => rfl

/-- A string literal ends at the next quote. -/
theorem string_append {content : List Char} (h : '"' ∉ content) (rest : List Char) :
    inside '"' (content ++ ['"'] ++ rest) =
      .ok (.token (.string (String.ofList content)) (content.length + 1)) := by
  have hall : ∀ d ∈ content, (d != '"') = true := by
    intro d hd
    rw [bne_iff_ne]
    rintro rfl
    exact h hd
  have hquote : ∀ d ∈ ('"' :: rest).head?, (d != '"') = false := by
    rintro d ⟨⟩
    rfl
  obtain ⟨htake, -⟩ := takeWhile_append_stops hall hquote
  have hlength : content.length ≠ (content ++ '"' :: rest).length := by
    rw [List.length_append, List.length_cons]
    omega
  change stringLiteral (content ++ ['"'] ++ rest) = _
  rw [List.append_assoc, List.singleton_append, stringLiteral, htake]
  exact if_neg hlength

theorem isWordChar_of_isDigit (h : c.isDigit = true) : isWordChar c = true := by
  simp [isWordChar, Char.isAlphanum, h]

theorem inside_of_isDigit (h : c.isDigit = true) (rest : List Char) :
    inside c rest = number c rest := by
  have hword := isWordChar_of_isDigit h
  obtain ⟨hlow, hhigh⟩ := code_of_isWordChar hword
  have hblank := isBlank_eq_false_of_code (c := c) (by omega) (by omega)
  have hsymbol := not_symbol_of_isWordChar hword
  have hstart := not_wordStart_of_isDigit h
  have hquote : c ≠ '"' := by
    rintro rfl
    cases h
  rw [inside, if_neg (by simp [hblank]), unmarked (not_marked_of_isWordChar hword)]
  dsimp only
  rw [if_neg (by simp [hsymbol]), if_neg (by simp [hstart]), if_neg hquote, if_pos h]

/-- A number goes on as long as there are digits. -/
theorem number_append {value : Int64} (hdigits : ∀ d ∈ c :: cs, d.isDigit = true)
    (hvalue : value.toInt = Nat.ofDigitChars 10 (c :: cs) 0)
    (hends : ∀ d ∈ rest.head?, d.isDigit = false) :
    inside c (cs ++ rest) = .ok (.token (.number value) cs.length) := by
  obtain ⟨hfirst, hrest⟩ := List.forall_mem_cons.1 hdigits
  obtain ⟨htake, -⟩ := takeWhile_append_stops hrest hends
  rw [inside_of_isDigit hfirst, number, htake, int64_eq_some.2 hvalue]
  rfl

/-- Operators of one character that are the beginning of another one. -/
theorem shortOperator_append {cls : OperatorClass} {spelling : String}
    (hmem : (c, cls, spelling) ∈ [('=', OperatorClass.assign, "="), ('<', .relation, "<"),
      ('>', .relation, ">"), ('!', .bang, "!")]) (hends : rest.head? ≠ some '=') :
    inside c rest = .ok (.token (.operator cls spelling) 0) := by
  simp only [List.mem_cons, Prod.mk.injEq, List.not_mem_nil, or_false] at hmem
  rcases hmem with ⟨rfl, rfl, rfl⟩ | ⟨rfl, rfl, rfl⟩ | ⟨rfl, rfl, rfl⟩ | ⟨rfl, rfl, rfl⟩ <;>
  · cases rest with
    | nil => rfl
    | cons d rest =>
      have hequals : d ≠ '=' := fun h => hends (congrArg some h)
      simp [inside, closing?, opening?, operator?, hequals, Text.isBlank, Text.inRanges,
        Text.blankRanges]

/-- An operator is read as a whole unless an equals sign would make a longer one. -/
theorem operator_append {cls : OperatorClass} {spelling : String}
    (hmem : (cls, spelling) ∈ operators) (hcs : c :: cs = spelling.toList)
    (hends : spelling ∈ ["=", "!", "<", ">"] → rest.head? ≠ some '=') :
    inside c (cs ++ rest) = .ok (.token (.operator cls spelling) cs.length) := by
  simp only [operators, List.mem_cons, Prod.mk.injEq, List.not_mem_nil, or_false] at hmem
  rcases hmem with ⟨rfl, rfl⟩ | ⟨rfl, rfl⟩ | ⟨rfl, rfl⟩ | ⟨rfl, rfl⟩ | ⟨rfl, rfl⟩ | ⟨rfl, rfl⟩ |
    ⟨rfl, rfl⟩ | ⟨rfl, rfl⟩ | ⟨rfl, rfl⟩ | ⟨rfl, rfl⟩ | ⟨rfl, rfl⟩ | ⟨rfl, rfl⟩ | ⟨rfl, rfl⟩ |
    ⟨rfl, rfl⟩ | ⟨rfl, rfl⟩ <;>
  · simp at hcs
    obtain ⟨rfl, rfl⟩ := hcs
    first | rfl | exact shortOperator_append (by simp) (hends (by decide))

theorem opening_append {d : Delimiter} (hopens : d ≠ .blockClose)
    (hcs : c :: cs = d.spelling.toList) (hends : d = .blockOpen → rest.head? ≠ some ':') :
    opening? c (cs ++ rest) = some (.token (.delimiter d) cs.length) := by
  cases d with
  | blockOpen =>
    obtain ⟨rfl, rfl⟩ : c = '{' ∧ cs = ['{'] := by simpa [Delimiter.spelling] using hcs
    -- a colon would make it the delimiter of a print block
    cases rest with
    | nil => rfl
    | cons d rest =>
      have hcolon : d ≠ ':' := fun h => hends rfl (congrArg some h)
      simp [opening?, hcolon]
  | printOpen =>
    cases hcs
    rfl
  | blockClose => exact absurd rfl hopens

/-- Delimiters are read before all else. -/
theorem delimiter_append {d : Delimiter} (hcs : c :: cs = d.spelling.toList)
    (hends : d = .blockOpen → rest.head? ≠ some ':') :
    inside c (cs ++ rest) = .ok (.token (.delimiter d) cs.length) := by
  by_cases hopens : d = .blockClose
  · subst hopens
    cases hcs
    rfl
  · have hopening := opening_append hopens hcs hends
    have hbrace : c = '{' := by
      cases d with
      | blockOpen | printOpen =>
        cases hcs
        rfl
      | blockClose => exact absurd rfl hopens
    subst hbrace
    rw [inside, if_neg (by decide), hopening]
    rfl

/-- A spelling inside a block is read as its token where nothing goes on with it. -/
theorem inside_of_spelledBy (hspelled : kind.SpelledBy (c :: cs)) (hstands : kind.Stands true)
    (hends : kind.EndsBefore rest) : inside c (cs ++ rest) = .ok (.token kind cs.length) := by
  cases kind with
  | operator cls spelling => exact operator_append hspelled.1 hspelled.2 hends
  | identifier name =>
    obtain ⟨hname, hword, hreserved⟩ := hspelled
    rw [name_append (List.cons_ne_nil _ []) (List.forall_mem_singleton.2 hword) hends
      List.intercalate_singleton, hname]
    simp [ofWords_identifier hreserved]
  | dottedName parts =>
    obtain ⟨hlength, hwords, hjoined⟩ := hspelled
    have hne : parts.map String.toList ≠ [] := by
      intro hnil
      rw [List.map_eq_nil_iff.1 hnil] at hlength
      cases hlength
    rw [name_append hne (by simpa using hwords) hends hjoined.symm]
    simp [Function.comp_def, ofWords_dottedName hlength]
  | string content =>
    obtain ⟨hquote, hcs⟩ := hspelled
    obtain ⟨rfl, rfl⟩ := List.cons.inj hcs
    have hread := string_append hquote rest
    rw [String.ofList_toList] at hread
    exact hread.trans (by simp)
  | number value => exact number_append hspelled.2.1 hspelled.2.2 hends
  | bool value =>
    have hword : IsWord (c :: cs) := by
      rw [hspelled]
      cases value <;> exact ⟨_, _, rfl, rfl, List.all_eq_true.1 (by decide)⟩
    rw [name_append (List.cons_ne_nil _ []) (List.forall_mem_singleton.2 hword) hends
      List.intercalate_singleton, hspelled]
    cases value <;> rfl
  | keyword word =>
    have hword : IsWord (c :: cs) := by
      rw [hspelled]
      cases word <;> exact ⟨_, _, rfl, rfl, List.all_eq_true.1 (by decide)⟩
    rw [name_append (List.cons_ne_nil _ []) (List.forall_mem_singleton.2 hword) hends
      List.intercalate_singleton, hspelled]
    cases word <;> rfl
  | symbol s =>
    obtain ⟨hsymbol, hcs⟩ := hspelled
    cases hcs
    simp only [isSymbol, Bool.or_eq_true, beq_iff_eq] at hsymbol
    rcases hsymbol with ((rfl | rfl) | rfl) | rfl <;> rfl
  | delimiter d =>
    refine delimiter_append hspelled ?_
    rintro rfl
    exact hends
  | text content => exact absurd rfl (hstands.1 content)
  | endOfLine => cases hspelled

/-! ### Outside the blocks -/

theorem textLength_cons (h : opening? c rest = none) :
    textLength (c :: rest) = textLength rest + 1 := by
  unfold opening? at h
  split at h
  · cases h
  · cases h
  · next hno =>
    rw [textLength]
    intro tail hc hrest
    exact hno tail hc hrest

theorem opening?_eq_none (h : ¬['{', '{'] <+: c :: rest) : opening? c rest = none := by
  unfold opening?
  split
  · exact absurd ⟨_, rfl⟩ h
  · exact absurd ⟨_, rfl⟩ h
  · rfl

/-- Between the characters of a text and those behind it there is no opening delimiter. -/
theorem not_opening_append (htext : ¬['{', '{'] <:+: c :: cs)
    (hedge : rest = [] ∨ (c :: cs).getLast? ≠ some '{') : ¬['{', '{'] <+: c :: (cs ++ rest) := by
  intro hopens
  obtain ⟨hc, tail, htail⟩ := List.cons_prefix_cons.1 hopens
  cases cs with
  | nil =>
    rcases hedge with rfl | hlast
    · cases htail
    · exact hlast (congrArg some hc.symm)
  | cons d cs =>
    obtain ⟨hd, -⟩ := List.cons.inj htail
    exact htext ⟨[], cs, by rw [← hc, ← hd]; rfl⟩

/-- A text ends in front of an opening delimiter that no brace of its own takes part in. -/
theorem textLength_append (htext : ¬['{', '{'] <:+: cs)
    (hends : rest = [] ∨ ['{', '{'] <+: rest ∧ cs.getLast? ≠ some '{') :
    textLength (cs ++ rest) = cs.length := by
  induction cs with
  | nil =>
    rcases hends with rfl | ⟨⟨tail, rfl⟩, -⟩
    · rfl
    · rfl
  | cons c cs ih =>
    have hinner : rest = [] ∨ ['{', '{'] <+: rest ∧ cs.getLast? ≠ some '{' := by
      refine hends.imp_right fun ⟨hopens, hlast⟩ => ⟨hopens, ?_⟩
      cases cs with
      | nil => nofun
      | cons d cs => exact hlast
    have hnone := opening?_eq_none (not_opening_append htext (hends.imp_right And.right))
    have htail := ih (fun h => htext (h.trans (List.suffix_cons c cs).isInfix)) hinner
    rw [List.cons_append, textLength_cons hnone, htail, List.length_cons]

/-- Outside the blocks, a spelling is read back as its token. -/
theorem outside_of_spelledBy (hspelled : kind.SpelledBy (c :: cs)) (hstands : kind.Stands false)
    (hends : kind.EndsBefore rest) : outside c (cs ++ rest) = .token kind cs.length := by
  rcases hstands with ⟨content, rfl⟩ | ⟨d, hopens, rfl⟩
  · obtain ⟨hcontent, -, htext⟩ := hspelled
    rw [TokenKind.endsBefore_text_iff, ← hcontent] at hends
    have hnone := opening?_eq_none (not_opening_append htext (hends.imp_right And.right))
    have hlength := textLength_append htext hends
    rw [List.cons_append, textLength_cons hnone, List.length_cons, Nat.add_right_cancel_iff]
      at hlength
    rw [outside, hnone]
    dsimp only
    rw [hlength, List.take_left, hcontent, String.ofList_toList]
  · have hcolon : d = .blockOpen → rest.head? ≠ some ':' := by
      rintro rfl
      exact hends
    rw [outside, opening_append hopens hspelled hcolon]

/-- A spelling is read as its token where nothing goes on with it. -/
theorem read_of_spelledBy {inBlock : Bool} (hspelled : kind.SpelledBy (c :: cs))
    (hstands : kind.Stands inBlock) (hends : kind.EndsBefore rest) :
    read inBlock c (cs ++ rest) = .ok (.token kind cs.length) := by
  cases inBlock with
  | true => exact inside_of_spelledBy hspelled hstands hends
  | false => exact congrArg Except.ok (outside_of_spelledBy hspelled hstands hends)

end Lexeme
end PageTemplate
