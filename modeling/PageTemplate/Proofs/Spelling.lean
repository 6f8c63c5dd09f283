import Mathlib.Data.List.Infix
import Mathlib.Data.List.TakeWhile
import PageTemplate.Token.Lexer

namespace PageTemplate

theorem Keyword.spelling_of_ofWord {word : String} {keyword : Keyword}
    (h : Keyword.ofWord? word = some keyword) : keyword.spelling = word := by
  unfold Keyword.ofWord? at h
  split at h <;> cases h <;> rfl

namespace Lexeme

def operators : List (OperatorClass × String) :=
  [(.relation, "=="), (.relation, "!="), (.relation, "<="), (.relation, ">="), (.logic, "||"),
   (.logic, "&&"), (.assign, "="), (.relation, "<"), (.relation, ">"), (.plus, "+"),
   (.minus, "-"), (.mult, "*"), (.mult, "/"), (.mult, "%"), (.bang, "!")]

def IsWord (cs : List Char) : Prop :=
  ∃ first rest, cs = first :: rest ∧ isWordStart first = true ∧ ∀ c ∈ rest, isWordChar c = true

def isReserved (word : String) : Bool :=
  (Keyword.ofWord? word).isSome || word = "true" || word = "false"

end Lexeme

/-- The characters that a token is written with. A number may have leading zeros. -/
def TokenKind.SpelledBy : TokenKind → List Char → Prop
  | .operator cls spelling, cs => (cls, spelling) ∈ Lexeme.operators ∧ cs = spelling.toList
  | .identifier name, cs =>
    cs = name.toList ∧ Lexeme.IsWord cs ∧ Lexeme.isReserved name = false
  | .dottedName parts, cs =>
    2 ≤ parts.length ∧ (∀ part ∈ parts, Lexeme.IsWord part.toList) ∧
      cs = ['.'].intercalate (parts.map String.toList)
  | .string content, cs => '"' ∉ content.toList ∧ cs = '"' :: content.toList ++ ['"']
  | .number value, cs =>
    cs ≠ [] ∧ (∀ c ∈ cs, c.isDigit = true) ∧ value.toInt = Nat.ofDigitChars 10 cs 0
  | .bool value, cs => cs = (if value then "true" else "false").toList
  | .keyword word, cs => cs = word.spelling.toList
  | .symbol c, cs => Lexeme.isSymbol c = true ∧ cs = [c]
  | .delimiter d, cs => cs = d.spelling.toList
  | .text content, cs => cs = content.toList ∧ cs ≠ [] ∧ ¬ ['{', '{'] <:+: cs
  | .endOfLine, cs => cs = []

/-- Inside a block there is no text; outside there is nothing but text and opening delimiters. The
end of a line stands on no character. -/
def TokenKind.Stands : Bool → TokenKind → Prop
  | true, kind => (∀ content, kind ≠ .text content) ∧ kind ≠ .endOfLine
  | false, kind => (∃ content, kind = .text content) ∨ ∃ d, d ≠ .blockClose ∧ kind = .delimiter d

namespace TokenKind

theorem Stands.ne_endOfLine {inBlock : Bool} {kind : TokenKind} (h : kind.Stands inBlock) :
    kind ≠ .endOfLine := by
  cases inBlock with
  | true => exact h.2
  | false => rintro rfl; rcases h with ⟨_, h⟩ | ⟨_, _, h⟩ <;> cases h

/-- Every token but the end of a line takes a character. -/
theorem SpelledBy.ne_nil {kind : TokenKind} {cs : List Char} (h : kind.SpelledBy cs)
    (hend : kind ≠ .endOfLine) : cs ≠ [] := by
  cases kind with
  | operator cls spelling =>
    obtain ⟨hmem, rfl⟩ := h
    exact (by decide : ∀ operator ∈ Lexeme.operators, operator.2.toList ≠ []) _ hmem
  | identifier name =>
    obtain ⟨-, ⟨first, rest, rfl, -⟩, -⟩ := h
    exact List.cons_ne_nil _ _
  | dottedName parts =>
    obtain ⟨hlength, -, rfl⟩ := h
    match parts, hlength with
    | first :: second :: others, _ => simp
  | string content =>
    obtain ⟨-, rfl⟩ := h
    exact List.cons_ne_nil _ _
  | number value => exact h.1
  | bool value =>
    subst h
    cases value <;> decide
  | keyword word =>
    subst h
    cases word <;> decide
  | symbol c =>
    obtain ⟨-, rfl⟩ := h
    exact List.cons_ne_nil _ _
  | delimiter d =>
    subst h
    cases d <;> decide
  | text content => exact h.2.1
  | endOfLine => exact absurd rfl hend

end TokenKind

namespace Lexeme

def Spells (lexeme : Lexeme) (c : Char) (rest : List Char) (kind : TokenKind) : Prop :=
  ∃ more, lexeme = .token kind more ∧ more ≤ rest.length ∧ kind.SpelledBy (c :: rest.take more)

variable {c : Char} {cs rest : List Char} {lexeme : Lexeme}

theorem opening_spells (h : opening? c rest = some lexeme) :
    ∃ d, d ≠ Delimiter.blockClose ∧ lexeme.Spells c rest (.delimiter d) := by
  unfold opening? at h
  split at h <;> cases h
  · exact ⟨.printOpen, nofun, 2, rfl, by simp, by simp [TokenKind.SpelledBy, Delimiter.spelling]⟩
  · exact ⟨.blockOpen, nofun, 1, rfl, by simp, by simp [TokenKind.SpelledBy, Delimiter.spelling]⟩

theorem closing_spells (h : closing? c rest = some lexeme) :
    lexeme.Spells c rest (.delimiter .blockClose) := by
  unfold closing? at h
  split at h <;> cases h
  exact ⟨1, rfl, by simp, by simp [TokenKind.SpelledBy, Delimiter.spelling]⟩

theorem operator_spells (h : operator? c rest = some lexeme) :
    ∃ cls spelling, lexeme.Spells c rest (.operator cls spelling) := by
  unfold operator? at h
  split at h <;> cases h <;>
    exact ⟨_, _, _, rfl, by simp, by simp [TokenKind.SpelledBy, operators]⟩

/-- There is always one word, and be it empty. -/
theorem dottedWords_ne_nil (cs : List Char) : dottedWords cs ≠ [] := by
  rw [dottedWords]
  split
  · split <;> exact List.cons_ne_nil _ _
  · exact List.cons_ne_nil _ _

/-- The words with their dots stand at the beginning of what is read. -/
theorem dottedWords_prefix (cs : List Char) : ['.'].intercalate (dottedWords cs) <+: cs := by
  fun_induction dottedWords cs with
  | case1 cs c rest hrest hstart _ ih =>
    rw [List.intercalate_cons_of_ne_nil (dottedWords_ne_nil _)]
    obtain ⟨tail, htail⟩ := ih
    refine ⟨tail, ?_⟩
    calc cs.takeWhile isWordChar ++ ['.'] ++ ['.'].intercalate (dottedWords (c :: rest)) ++ tail
        = cs.takeWhile isWordChar ++ '.' :: c :: rest := by
          rw [List.append_assoc, htail, List.append_assoc, List.singleton_append]
      _ = cs := by rw [← hrest, List.takeWhile_append_dropWhile]
  | case2 cs c rest hrest hstart =>
    rw [List.intercalate_singleton]
    exact List.takeWhile_prefix isWordChar
  | case3 cs hrest =>
    rw [List.intercalate_singleton]
    exact List.takeWhile_prefix isWordChar

theorem isWordChar_of_isWordStart (h : isWordStart c = true) : isWordChar c = true := by
  simp only [isWordStart, isWordChar, Char.isAlphanum, Bool.or_eq_true] at h ⊢
  exact h.imp_left .inl

theorem isWord_takeWhile (h : isWordStart c = true) (rest : List Char) :
    IsWord ((c :: rest).takeWhile isWordChar) := by
  refine ⟨c, rest.takeWhile isWordChar, ?_, h, fun d hd => List.mem_takeWhile_imp hd⟩
  rw [List.takeWhile_cons_of_pos (isWordChar_of_isWordStart h)]

/-- A dot goes on with a name only in front of a word. -/
theorem isWord_of_mem_dottedWords (h : isWordStart c = true) (rest : List Char) :
    ∀ word ∈ dottedWords (c :: rest), IsWord word := by
  generalize hcs : c :: rest = cs
  fun_induction dottedWords cs generalizing c rest with
  | case1 cs d tail hdrop hstart _ ih =>
    subst hcs
    intro word hword
    rcases List.mem_cons.1 hword with rfl | hmem
    · exact isWord_takeWhile h rest
    · exact ih hstart tail rfl word hmem
  | case2 | case3 =>
    subst hcs
    intro word hword
    rw [List.mem_singleton.1 hword]
    exact isWord_takeWhile h rest

/-- The token of words joined by dots is spelled by them. -/
theorem ofWords_spelledBy {words : List (List Char)} (hne : words ≠ [])
    (h : ∀ word ∈ words, IsWord word) :
    (ofWords (words.map String.ofList)).SpelledBy (['.'].intercalate words) := by
  match words, hne with
  | [word], _ =>
    have hword := h word List.mem_cons_self
    rw [List.intercalate_singleton, List.map_singleton, ofWords]
    cases hkeyword : Keyword.ofWord? (String.ofList word) with
    | some keyword =>
      simp only [TokenKind.SpelledBy, Keyword.spelling_of_ofWord hkeyword, String.toList_ofList]
    | none =>
      dsimp only
      split
      · next htrue => simp [TokenKind.SpelledBy, ← htrue]
      · split
        · next hfalse => simp [TokenKind.SpelledBy, ← hfalse]
        · next htrue hfalse =>
          refine ⟨String.toList_ofList.symm, hword, ?_⟩
          simp [isReserved, hkeyword, htrue, hfalse]
  | first :: second :: others, _ =>
    have hparts : ∀ part ∈ (first :: second :: others).map String.ofList, IsWord part.toList := by
      intro part hpart
      obtain ⟨word, hmem, rfl⟩ := List.mem_map.1 hpart
      rw [String.toList_ofList]
      exact h word hmem
    exact ⟨by simp, hparts, by simp [List.map_map, Function.comp_def]⟩

theorem ofWords_stands (words : List String) : (ofWords words).Stands true := by
  unfold ofWords
  split
  · split
    · exact ⟨nofun, nofun⟩
    · split
      · exact ⟨nofun, nofun⟩
      · split <;> exact ⟨nofun, nofun⟩
  · exact ⟨nofun, nofun⟩

/-- A name is spelled by its words with dots between. -/
theorem name_spells (h : isWordStart c = true) (rest : List Char) :
    ∃ kind, (name (c :: rest)).Spells c rest kind ∧ kind.Stands true := by
  have hwords := isWord_of_mem_dottedWords h rest
  have hne := dottedWords_ne_nil (c :: rest)
  have hspelled := ofWords_spelledBy hne hwords
  obtain ⟨tail, htail⟩ := dottedWords_prefix (c :: rest)
  -- the words begin with the character that is read first
  obtain ⟨spelling, hcons⟩ : ∃ spelling, ['.'].intercalate (dottedWords (c :: rest)) =
      c :: spelling := by
    cases hjoined : ['.'].intercalate (dottedWords (c :: rest)) with
    | nil =>
      obtain ⟨word, words, hlist⟩ := List.exists_cons_of_ne_nil hne
      obtain ⟨first, others, rfl, -⟩ := hwords word (by simp [hlist])
      rw [hlist] at hjoined
      cases words <;> simp at hjoined
    | cons d spelling =>
      rw [hjoined, List.cons_append] at htail
      exact ⟨spelling, by rw [(List.cons.inj htail).1]⟩
  rw [hcons] at hspelled htail
  obtain rfl : spelling ++ tail = rest := (List.cons.inj htail).2
  refine ⟨ofWords _, ⟨spelling.length, ?_, by simp, ?_⟩,
    ofWords_stands ((dottedWords (c :: (spelling ++ tail))).map String.ofList)⟩
  · simp only [name, hcons, List.length_cons, Nat.add_sub_cancel]
  · rwa [List.take_left]

/-- A string literal is spelled by its content and two quotes. -/
theorem stringLiteral_spells (h : stringLiteral rest = .ok lexeme) :
    ∃ content, lexeme.Spells '"' rest (.string content) := by
  unfold stringLiteral at h
  dsimp only at h
  split at h
  · cases h
  · next hlength =>
    cases h
    have hsplit : rest.takeWhile (· != '"') ++ rest.dropWhile (· != '"') = rest :=
      List.takeWhile_append_dropWhile
    -- the literal is not the whole rest, so a closing quote stops it
    have hquote : ∃ tail, rest.dropWhile (· != '"') = '"' :: tail := by
      cases hdrop : rest.dropWhile (· != '"') with
      | nil =>
        rw [hdrop, List.append_nil] at hsplit
        exact absurd (congrArg List.length hsplit) hlength
      | cons d tail =>
        have hd : (d != '"') = false := by
          have hhead := List.head?_dropWhile_not (· != '"') rest
          rwa [hdrop] at hhead
        rw [bne_eq_false_iff_eq] at hd
        exact ⟨tail, by rw [hd]⟩
    obtain ⟨tail, htail⟩ := hquote
    rw [htail] at hsplit
    have hprefix : rest.takeWhile (· != '"') ++ ['"'] <+: rest :=
      ⟨tail, by rw [List.append_assoc, List.singleton_append, hsplit]⟩
    have htake := List.prefix_iff_eq_take.1 hprefix
    have hcount := hprefix.length_le
    rw [List.length_append, List.length_singleton] at htake hcount
    refine ⟨_, _, rfl, hcount, ?_, ?_⟩
    · rw [String.toList_ofList]
      intro hmem
      have hne := List.mem_takeWhile_imp hmem
      simp at hne
    · rw [String.toList_ofList, ← htake]
      rfl

theorem number_spells (hdigit : c.isDigit = true) (h : number c rest = .ok lexeme) :
    ∃ value, lexeme.Spells c rest (.number value) := by
  unfold number at h
  dsimp only at h
  split at h
  · next value hvalue =>
    cases h
    have hprefix : rest.takeWhile Char.isDigit <+: rest := List.takeWhile_prefix Char.isDigit
    have htake := List.prefix_iff_eq_take.1 hprefix
    refine ⟨value, (rest.takeWhile Char.isDigit).length, rfl, hprefix.length_le, ?_, ?_, ?_⟩
    · exact List.cons_ne_nil _ _
    · rw [← htake]
      exact List.forall_mem_cons.2 ⟨hdigit, fun d hd => List.mem_takeWhile_imp hd⟩
    · rw [← htake]
      exact int64_eq_some.1 hvalue
  · cases h

theorem textLength_le (cs : List Char) : textLength cs ≤ cs.length := by
  fun_induction textLength cs with
  | case1 => exact Nat.le_refl 0
  | case2 => exact Nat.zero_le _
  | case3 c rest _ ih => exact Nat.succ_le_succ ih

/-- No opening delimiter stands before the end of a piece of text. -/
theorem not_opening_in_text (h : opening? c rest = none) :
    ¬ ['{', '{'] <:+: c :: rest.take (textLength rest) := by
  have hfirst : ∀ (c : Char) (rest : List Char) (n : Nat), opening? c rest = none →
      ¬ ['{', '{'] <+: c :: rest.take n := by
    intro c rest n hnone hprefix
    obtain ⟨tail, htail⟩ := hprefix
    obtain ⟨rfl, hrest⟩ := List.cons.inj htail
    cases rest with
    | nil => simp at hrest
    | cons d rest =>
      cases n with
      | zero => simp at hrest
      | succ n =>
        obtain ⟨rfl, -⟩ := List.cons.inj hrest
        unfold opening? at hnone
        split at hnone
        · cases hnone
        · cases hnone
        · next hno => exact hno rest rfl rfl
  intro hinfix
  rcases List.infix_cons_iff.1 hinfix with hprefix | hrest
  · exact hfirst c rest _ h hprefix
  · clear hinfix h
    fun_induction textLength rest with
    | case1 => simp at hrest
    | case2 => simp at hrest
    | case3 d rest hno ih =>
      rw [List.take_succ_cons] at hrest
      rcases List.infix_cons_iff.1 hrest with hprefix | hinner
      · refine hfirst d rest _ ?_ hprefix
        unfold opening?
        split
        · exact (hno _ rfl rfl).elim
        · exact (hno _ rfl rfl).elim
        · rfl
      · exact ih hinner

/-- Outside the blocks there is always a token. -/
theorem outside_spells (c : Char) (rest : List Char) :
    ∃ kind, (outside c rest).Spells c rest kind ∧ kind.Stands false := by
  unfold outside
  split
  · next lexeme hopening =>
    obtain ⟨d, hd, hspells⟩ := opening_spells hopening
    exact ⟨_, hspells, .inr ⟨d, hd, rfl⟩⟩
  · next hnone =>
    refine ⟨_, ⟨_, rfl, textLength_le rest, ?_, ?_, ?_⟩, .inl ⟨_, rfl⟩⟩
    · exact String.toList_ofList.symm
    · exact List.cons_ne_nil _ _
    · exact not_opening_in_text hnone

/-- Inside a block there is white space or a token that may stand there, if anything can be read. -/
theorem inside_spells (h : inside c rest = .ok lexeme) :
    (lexeme = .blank ∧ Text.isBlank c = true) ∨
      ∃ kind, lexeme.Spells c rest kind ∧ kind.Stands true := by
  unfold inside at h
  split at h
  · next hblank =>
    cases h
    exact .inl ⟨rfl, hblank⟩
  · refine .inr ?_
    split at h
    · next found hfound =>
      cases h
      -- delimiters and operators, in the order in which they are looked for
      simp only [Option.orElse_eq_orElse, Option.orElse_eq_or, Option.or_eq_some_iff] at hfound
      rcases hfound with hclosing | ⟨-, hopening | ⟨-, hoperator⟩⟩
      · exact ⟨_, closing_spells hclosing, nofun, nofun⟩
      · obtain ⟨d, -, hspells⟩ := opening_spells hopening
        exact ⟨_, hspells, nofun, nofun⟩
      · obtain ⟨cls, spelling, hspells⟩ := operator_spells hoperator
        exact ⟨_, hspells, nofun, nofun⟩
    · split at h
      · next hsymbol =>
        cases h
        exact ⟨.symbol c, ⟨0, rfl, Nat.zero_le _, hsymbol, rfl⟩, nofun, nofun⟩
      · split at h
        · next hstart =>
          cases h
          exact name_spells hstart rest
        · split at h
          · next hquote =>
            subst hquote
            obtain ⟨content, hspells⟩ := stringLiteral_spells h
            exact ⟨_, hspells, nofun, nofun⟩
          · split at h
            · next hdigit =>
              obtain ⟨value, hspells⟩ := number_spells hdigit h
              exact ⟨_, hspells, nofun, nofun⟩
            · cases h

/-- What is read is a blank inside a block, or a token in its place with its spelling. -/
theorem read_spells {inBlock : Bool} (h : read inBlock c rest = .ok lexeme) :
    (lexeme = .blank ∧ inBlock = true ∧ Text.isBlank c = true) ∨
      ∃ kind, lexeme.Spells c rest kind ∧ kind.Stands inBlock := by
  cases inBlock with
  | true =>
    rcases inside_spells h with ⟨rfl, hblank⟩ | hkind
    · exact .inl ⟨rfl, rfl, hblank⟩
    · exact .inr hkind
  | false =>
    cases h
    exact .inr (outside_spells c rest)

end Lexeme
end PageTemplate
