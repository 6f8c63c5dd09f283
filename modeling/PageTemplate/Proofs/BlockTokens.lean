import PageTemplate.Proofs.Layout
import PageTemplate.Proofs.Numerals
import PageTemplate.Proofs.Stretches

namespace PageTemplate

/-- What can be written inside a block: a token whose parts are those that its kind allows. -/
def TokenKind.Writable : TokenKind → Prop
  | .operator cls spelling => (cls, spelling) ∈ Lexeme.operators
  | .symbol c => Lexeme.isSymbol c = true
  | .keyword _ | .bool _ => True
  | .identifier name => Lexeme.IsWord name.toList ∧ Lexeme.isReserved name = false
  | .dottedName parts => 2 ≤ parts.length ∧ ∀ part ∈ parts, Lexeme.IsWord part.toList
  | .string content => '"' ∉ content.toList
  | .number value => 0 ≤ value.toInt
  | .delimiter _ | .text _ | .endOfLine => False

/-- A token as it is written inside a block, with the white space behind it. -/
structure Written where
  kind : TokenKind
  spelling : List Char
  gap : List Char
  writable : kind.Writable
  spelled : kind.SpelledBy spelling
  isGap : Text.IsGap gap
  apart : gap ≠ []

namespace TokenKind

variable {kind : TokenKind}

theorem Writable.stands (h : kind.Writable) : kind.Stands true := by
  cases kind with
  | text | endOfLine => exact h.elim
  | _ => exact ⟨nofun, nofun⟩

/-- Only delimiters open and close blocks. -/
theorem Writable.inBlockAfter (h : kind.Writable) (inBlock : Bool) :
    Lexeme.inBlockAfter inBlock kind = inBlock := by
  cases kind with
  | delimiter => exact h.elim
  | _ => rfl

theorem Writable.exists_spelling (h : kind.Writable) : ∃ cs, kind.SpelledBy cs := by
  cases kind with
  | operator cls spelling => exact ⟨_, h, rfl⟩
  | symbol c => exact ⟨_, h, rfl⟩
  | keyword | bool => exact ⟨_, rfl⟩
  | identifier name => exact ⟨_, rfl, h⟩
  | dottedName parts => exact ⟨_, h.1, h.2, rfl⟩
  | string content => exact ⟨_, h, rfl⟩
  | number value =>
    -- of its spellings, the one without zeros in front
    have hread := Text.readDigits?_toDigits value.toInt.toNat
    obtain ⟨⟨hne, hdigits⟩, hvalue⟩ := Text.readDigits?_eq_some_iff.1 hread
    refine ⟨_, hne, hdigits, ?_⟩
    rw [Text.ofDigitChars_zero, hvalue, Int.toNat_of_nonneg h]
  | delimiter | text | endOfLine => exact h.elim

end TokenKind

namespace Written

def chars (item : Written) : List Char := item.spelling ++ item.gap

def tokens (line : Nat) : Nat → List Written → List Token
  | _, [] => []
  | column, item :: items =>
    ⟨item.kind, ⟨line, column⟩⟩ :: tokens line (column + item.chars.length) items

/-- Tokens that can be written can be written side by side. -/
theorem exists_of_writable {kinds : List TokenKind} (h : ∀ kind ∈ kinds, kind.Writable) :
    ∃ items : List Written, items.map kind = kinds := by
  induction kinds with
  | nil => exact ⟨[], rfl⟩
  | cons first kinds ih =>
    obtain ⟨hfirst, hkinds⟩ := List.forall_mem_cons.1 h
    obtain ⟨cs, hspelled⟩ := hfirst.exists_spelling
    obtain ⟨items, rfl⟩ := ih hkinds
    have hspace : Text.IsGap [' '] := by
      intro c hc
      rw [List.mem_singleton.1 hc]
      decide
    exact ⟨⟨first, cs, [' '], hfirst, hspelled, hspace, nofun⟩ :: items, rfl⟩

end Written

namespace Lexer

/-- White space inside a block moves the column and nothing else. -/
theorem scan_gap {gap : List Char} (hgap : Text.IsGap gap) (line column : Nat)
    (rest : List Char) :
    scan line true column (gap ++ rest) = scan line true (column + gap.length) rest := by
  induction gap generalizing column with
  | nil => rfl
  | cons c gap ih =>
    obtain ⟨hblank, hgap⟩ := List.forall_mem_cons.1 hgap
    rw [List.cons_append, scan_blank hblank, ih hgap, List.length_cons, Nat.add_assoc,
      Nat.add_comm 1]

/-- What has been written is read one after the other, and then what is behind. -/
theorem scan_written (items : List Written) (line column : Nat) (rest : List Char) :
    let later := scan line true (column + (items.flatMap Written.chars).length) rest
    scan line true column (items.flatMap Written.chars ++ rest) =
      (later.1.map (Written.tokens line column items ++ ·), later.2) := by
  induction items generalizing column with
  | nil =>
    intro later
    have hlater : later = scan line true column rest := rfl
    rw [List.flatMap_nil, List.nil_append, ← hlater]
    rcases later with ⟨_ | tokens, last⟩ <;> rfl
  | cons item items ih =>
    have hstands := item.writable.stands
    -- the white space ends the token, whatever is behind it
    have hstops : Lexeme.Stops (item.gap ++ (items.flatMap Written.chars ++ rest)) :=
      stops_gap item.isGap fun hnil => absurd hnil item.apart
    have hlength : column + item.chars.length =
        column + item.spelling.length + item.gap.length := by
      rw [Written.chars, List.length_append, Nat.add_assoc]
    rw [List.flatMap_cons, List.length_append, ← Nat.add_assoc, hlength, List.append_assoc,
      Written.chars, List.append_assoc,
      scan_spelled item.spelled hstands (hstops.endsBefore hstands),
      item.writable.inBlockAfter, scan_gap item.isGap, ih, Written.tokens, hlength]
    rcases scan line true _ rest with ⟨_ | tokens, last⟩ <;> rfl

/-- The closing braces end the block, and the line if nothing is behind them. -/
theorem scan_close (line column : Nat) :
    scan line true column Delimiter.blockClose.spelling.toList =
      (.ok [⟨.delimiter .blockClose, ⟨line, column⟩⟩, ⟨.endOfLine, ⟨line, column + 2⟩⟩],
        false) := by
  have hspelled : (TokenKind.delimiter .blockClose).SpelledBy
      Delimiter.blockClose.spelling.toList := rfl
  have hstands : (TokenKind.delimiter .blockClose).Stands true := ⟨nofun, nofun⟩
  have hends : (TokenKind.delimiter .blockClose).EndsBefore [] := trivial
  have hclose := scan_spelled hspelled hstands hends line column
  rw [List.append_nil] at hclose
  rw [hclose, scan]
  rfl

/-- A block on a line of its own: its delimiters, and what has been written between them. -/
theorem readLine_written (lexer : Lexer) {opening : Delimiter} {gap : List Char}
    (items : List Written) (hout : lexer.inBlock = false) (hopens : opening ≠ .blockClose)
    (hgap : Text.IsGap gap) (hapart : items ≠ [] → gap ≠ []) :
    let line := lexer.line + 1
    let first := 1 + opening.spelling.length + gap.length
    let last := first + (items.flatMap Written.chars).length
    lexer.readLine (opening.spelling.toList ++
        (gap ++ (items.flatMap Written.chars ++ Delimiter.blockClose.spelling.toList))) =
      (.ok (⟨.delimiter opening, ⟨line, 1⟩⟩ :: (Written.tokens line first items ++
        [⟨.delimiter .blockClose, ⟨line, last⟩⟩, ⟨.endOfLine, ⟨line, last + 2⟩⟩])),
        ⟨line, false⟩) := by
  intro line first last
  have hstops : Lexeme.Stops
      (gap ++ (items.flatMap Written.chars ++ Delimiter.blockClose.spelling.toList)) := by
    refine stops_gap hgap fun hnil => ?_
    -- without white space there is nothing between the delimiters
    obtain rfl : items = [] := by
      by_contra hne
      exact hapart hne hnil
    rintro d ⟨⟩
    rfl
  have hends : (TokenKind.delimiter opening).EndsBefore
      (gap ++ (items.flatMap Written.chars ++ Delimiter.blockClose.spelling.toList)) :=
    hstops.endsBefore ⟨nofun, nofun⟩
  have hspelled : (TokenKind.delimiter opening).SpelledBy opening.spelling.toList := rfl
  have hstands : (TokenKind.delimiter opening).Stands false := .inr ⟨opening, hopens, rfl⟩
  have hinside : Lexeme.inBlockAfter false (.delimiter opening) = true := by
    cases opening with
    | blockOpen | printOpen => rfl
    | blockClose => exact absurd rfl hopens
  rw [readLine, hout, scan_spelled hspelled hstands hends, hinside, scan_gap hgap,
    scan_written, scan_close, String.length_toList]
  rfl

end Lexer

/-- Every token can be written inside a block and is read back. Whichever tokens they are, there is
a way to write them; and however they are written, with white space around each of them, a line that
is read outside a block gives the delimiters and these tokens, each in the column where it stands.
-/
theorem block_tokens_read_back :
    (∀ kinds : List TokenKind, (∀ kind ∈ kinds, kind.Writable) →
      ∃ items : List Written, items.map Written.kind = kinds) ∧
    ∀ (lexer : Lexer) (opening : Delimiter) (gap : List Char) (items : List Written),
      lexer.inBlock = false → opening ≠ .blockClose → Text.IsGap gap → (items ≠ [] → gap ≠ []) →
      let line := lexer.line + 1
      let first := 1 + opening.spelling.length + gap.length
      let last := first + (items.flatMap Written.chars).length
      lexer.readLine (opening.spelling.toList ++
          (gap ++ (items.flatMap Written.chars ++ Delimiter.blockClose.spelling.toList))) =
        (.ok (⟨.delimiter opening, ⟨line, 1⟩⟩ :: (Written.tokens line first items ++
          [⟨.delimiter .blockClose, ⟨line, last⟩⟩, ⟨.endOfLine, ⟨line, last + 2⟩⟩])),
          ⟨line, false⟩) :=
  ⟨fun _ => Written.exists_of_writable,
    fun lexer _ _ items hout hopens hgap hapart =>
      lexer.readLine_written items hout hopens hgap hapart⟩

/-- A reserved word as part of a name, zeros in front of a number, an opening delimiter in a string,
and a line that is broken. -/
theorem block_tokens_read_back_in_print :
    Lexer.readLine {} "\x7b\x7b: if.x 007\n\"\x7b\x7b\" \x7d\x7d".toList =
      (.ok [⟨.delimiter .printOpen, ⟨1, 1⟩⟩, ⟨.dottedName ["if", "x"], ⟨1, 5⟩⟩,
        ⟨.number 7, ⟨1, 10⟩⟩, ⟨.string "\x7b\x7b", ⟨1, 14⟩⟩,
        ⟨.delimiter .blockClose, ⟨1, 19⟩⟩, ⟨.endOfLine, ⟨1, 21⟩⟩], ⟨1, false⟩) := by
  have hgap {c : Char} (hc : Text.isBlank c = true) : Text.IsGap [c] :=
    List.forall_mem_singleton.2 hc
  have hapart {c : Char} : [c] ≠ [] := List.cons_ne_nil c []
  have hwords : ∀ part ∈ ["if", "x"], Lexeme.IsWord part.toList := by
    simp [Lexeme.IsWord, Lexeme.isWordStart, Lexeme.isWordChar]
  have hnonneg : 0 ≤ (7 : Int64).toInt := by decide
  have hdigits : ∀ c ∈ "007".toList, c.isDigit = true := by simp
  have hquote : '"' ∉ "\x7b\x7b".toList := by decide
  let items : List Written :=
    [⟨.dottedName ["if", "x"], "if.x".toList, [' '], ⟨by decide, hwords⟩, ⟨by decide, hwords, rfl⟩,
        hgap rfl, hapart⟩,
      ⟨.number 7, "007".toList, ['\n'], hnonneg, ⟨by decide, hdigits, by decide⟩, hgap rfl, hapart⟩,
      ⟨.string "\x7b\x7b", "\"\x7b\x7b\"".toList, [' '], hquote, ⟨hquote, rfl⟩, hgap rfl,
        hapart⟩]
  exact block_tokens_read_back.2 {} .printOpen [' '] items rfl (by decide) (hgap rfl)
    fun _ => hapart

end PageTemplate
