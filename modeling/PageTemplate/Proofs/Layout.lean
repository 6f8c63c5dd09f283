import PageTemplate.Proofs.Pieces
import PageTemplate.Proofs.Stretches

namespace PageTemplate

/-- What has no line end in it belongs to one line. -/
theorem Text.takeLine_append_of_not_mem {front : List Char} (h : '\n' ∉ front) (rest : List Char) :
    takeLine (front ++ rest) = (front ++ (takeLine rest).1, (takeLine rest).2) := by
  induction front with
  | nil => rfl
  | cons c front ih =>
    obtain ⟨hc, hfront⟩ := not_or.1 (mt List.mem_cons.2 h)
    rw [List.cons_append, takeLine, if_neg (Ne.symm hc), ih hfront]
    rfl

def Text.IsGap (cs : List Char) : Prop := ∀ c ∈ cs, isBlank c = true

/-- Tokens spelled in order, with white space between them and possibly behind the last one. None
of them goes over the end of a line. -/
inductive Spaced : List TokenKind → List Char → Prop
  | last {kind : TokenKind} {cs gap : List Char} :
    kind.SpelledBy cs → '\n' ∉ cs → Text.IsGap gap → Spaced [kind] (cs ++ gap)
  | cons {kind : TokenKind} {kinds : List TokenKind} {cs gap rest : List Char} :
    kind.SpelledBy cs → '\n' ∉ cs → Text.IsGap gap → gap ≠ [] → Spaced kinds rest →
    Spaced (kind :: kinds) (cs ++ (gap ++ rest))

namespace Lexer

def readFrom (line : Nat) (inBlock : Bool) (column : Nat) (cs : List Char) :
    Except LexError (List Token) :=
  match scan line inBlock column (Text.takeLine cs).1 with
  | (.error e, _) => .error e
  | (.ok tokens, after) =>
    (readLines ⟨line, after⟩ (Text.lines (Text.takeLine cs).2)).map (tokens ++ ·)

/-- Wherever it begins, the text is read as tokens of these kinds, up to the ends of lines. -/
def Reads (inBlock : Bool) (cs : List Char) (kinds : List TokenKind) : Prop :=
  ∀ line column, ∃ tokens, readFrom line inBlock column cs = .ok tokens ∧
    (withoutLineEnds tokens).map Token.kind = kinds

variable {inBlock : Bool} {c : Char} {cs rest : List Char} {kind : TokenKind}
  {kinds : List TokenKind}

/-- The first line counts from its first column, and then come the others. -/
theorem readLines_eq_readFrom (line : Nat) (inBlock : Bool) (c : Char) (cs : List Char) :
    readLines ⟨line, inBlock⟩ (Text.lines (c :: cs)) = readFrom (line + 1) inBlock 1 (c :: cs) := by
  rw [Text.lines, readLines, readFrom, readLine]
  rcases scan (line + 1) inBlock 1 (Text.takeLine (c :: cs)).1 with ⟨_ | tokens, after⟩ <;> rfl

theorem reads_nil (inBlock : Bool) : Reads inBlock [] [] := by
  intro line column
  exact ⟨[⟨.endOfLine, ⟨line, column⟩⟩], by simp [readFrom, Text.takeLine, scan, Text.lines,
    readLines, Except.map], rfl⟩

/-- A blank in front makes no difference inside a block, not even at the end of a line. -/
theorem Reads.blank (hblank : Text.isBlank c = true) (h : Reads true rest kinds) :
    Reads true (c :: rest) kinds := by
  intro line column
  by_cases hc : c = '\n'
  · -- the rest is another line, or nothing at all
    have hscan : scan line true column [c] = (.ok [⟨.endOfLine, ⟨line, column + 1⟩⟩], true) := by
      rw [scan_blank hblank, scan]
    have hfrom : readFrom line true column (c :: rest) =
        (readLines ⟨line, true⟩ (Text.lines rest)).map
          ([⟨.endOfLine, ⟨line, column + 1⟩⟩] ++ ·) := by
      rw [readFrom, Text.takeLine, if_pos hc, hscan]
    cases rest with
    | nil =>
      obtain ⟨tokens, htokens, hkinds⟩ := h line column
      obtain ⟨others, hothers, hnone⟩ := reads_nil true line column
      rw [htokens] at hothers
      cases hothers
      refine ⟨[⟨.endOfLine, ⟨line, column + 1⟩⟩], ?_, hkinds.symm.trans hnone ▸ rfl⟩
      rw [hfrom, Text.lines]
      rfl
    | cons d below =>
      obtain ⟨tokens, htokens, hkinds⟩ := h (line + 1) 1
      refine ⟨⟨.endOfLine, ⟨line, column + 1⟩⟩ :: tokens, ?_, ?_⟩
      · rw [hfrom, readLines_eq_readFrom, htokens]
        rfl
      · rw [withoutLineEnds_skip rfl, hkinds]
  · obtain ⟨tokens, htokens, hkinds⟩ := h line (column + 1)
    refine ⟨tokens, ?_, hkinds⟩
    rw [← htokens, readFrom, readFrom, Text.takeLine, if_neg hc, scan_blank hblank]

/-- A token in front is read first if it ends before its line does. -/
theorem Reads.token
    (hread : Lexeme.read inBlock c (cs ++ (Text.takeLine rest).1) = .ok (.token kind cs.length))
    (hline : '\n' ∉ c :: cs) (hkind : kind ≠ .endOfLine)
    (h : Reads (Lexeme.inBlockAfter inBlock kind) rest kinds) :
    Reads inBlock (c :: cs ++ rest) (kind :: kinds) := by
  intro line column
  obtain ⟨tokens, htokens, hkinds⟩ := h line (column + cs.length + 1)
  refine ⟨⟨kind, ⟨line, column⟩⟩ :: tokens, ?_, ?_⟩
  · rw [readFrom] at htokens
    rw [readFrom, Text.takeLine_append_of_not_mem hline, List.cons_append, scan, hread]
    dsimp only
    rw [List.drop_left]
    rcases hscan : scan line (Lexeme.inBlockAfter inBlock kind) (column + cs.length + 1)
      (Text.takeLine rest).1 with ⟨_ | first, after⟩
    · rw [hscan] at htokens
      cases htokens
    · rw [hscan] at htokens
      dsimp only at htokens ⊢
      obtain ⟨later, hlater, rfl⟩ := Parser.map_eq_ok htokens
      simp only [Except.map, hlater]
      rfl
  · rw [withoutLineEnds, List.filter_cons_of_pos (by simpa using hkind), List.map_cons]
    rw [withoutLineEnds] at hkinds
    rw [hkinds]

theorem Reads.gap {gap : List Char} (hgap : Text.IsGap gap) (h : Reads true rest kinds) :
    Reads true (gap ++ rest) kinds := by
  induction gap with
  | nil => exact h
  | cons c gap ih =>
    obtain ⟨hblank, hgap⟩ := List.forall_mem_cons.1 hgap
    exact (ih hgap).blank hblank

/-- The end of the line that stops a token, if nothing else does. -/
theorem stops_takeLine (h : Lexeme.Stops rest) : Lexeme.Stops (Text.takeLine rest).1 := by
  intro d hd
  cases rest with
  | nil => cases hd
  | cons c rest =>
    refine h d ?_
    rw [Text.takeLine] at hd
    split at hd <;> exact hd

/-- A spelling may stand in front of anything that stops it. -/
theorem Reads.spelled (hspelled : kind.SpelledBy cs) (hstands : kind.Stands true)
    (hline : '\n' ∉ cs) (hstops : Lexeme.Stops rest)
    (h : Reads (Lexeme.inBlockAfter true kind) rest kinds) :
    Reads true (cs ++ rest) (kind :: kinds) := by
  obtain ⟨c, cs, rfl⟩ := List.exists_cons_of_ne_nil (hspelled.ne_nil hstands.ne_endOfLine)
  exact .token (Lexeme.inside_of_spelledBy hspelled hstands
    ((stops_takeLine hstops).endsBefore hstands)) hline
    hstands.ne_endOfLine h

def InBlock (kind : TokenKind) : Prop :=
  kind.Stands true ∧ Lexeme.inBlockAfter true kind = true

theorem stops_gap {gap : List Char} (hgap : Text.IsGap gap)
    (hstops : gap = [] → Lexeme.Stops rest) : Lexeme.Stops (gap ++ rest) := by
  cases gap with
  | nil => exact hstops rfl
  | cons c gap =>
    rintro d ⟨⟩
    rw [Lexeme.isStop, hgap c List.mem_cons_self]
    rfl

/-- By induction on the tokens: each one is stopped by the white space behind it or by its
successor. -/
theorem Reads.spaced (hspaced : Spaced kinds cs) (hkinds : ∀ kind ∈ kinds, InBlock kind)
    {later : List TokenKind} (hstops : Lexeme.Stops rest) (h : Reads true rest later) :
    Reads true (cs ++ rest) (kinds ++ later) := by
  induction hspaced with
  | @last kind cs gap hspelled hline hgap =>
    obtain ⟨hstands, hblock⟩ := hkinds kind List.mem_cons_self
    rw [List.append_assoc]
    refine .spelled hspelled hstands hline (stops_gap hgap fun _ => hstops) ?_
    rw [hblock]
    exact h.gap hgap
  | @cons kind kinds cs gap body hspelled hline hgap hne _ ih =>
    obtain ⟨⟨hstands, hblock⟩, hothers⟩ := List.forall_mem_cons.1 hkinds
    rw [List.append_assoc, List.append_assoc]
    refine .spelled hspelled hstands hline (stops_gap hgap fun hnil => absurd hnil hne) ?_
    rw [hblock]
    exact (ih hothers).gap hgap

end Lexer

def PrintsTokens (kinds : List TokenKind) (source : String) : Prop :=
  ∃ gap body, Text.IsGap gap ∧ Spaced kinds body ∧
    source.toList = ['{', '{', ':'] ++ (gap ++ (body ++ ['}', '}']))

/-- A print block is read as its delimiters and the tokens between them. -/
theorem PrintsTokens.tokenize {kinds : List TokenKind} {source : String}
    (h : PrintsTokens kinds source) (hkinds : ∀ kind ∈ kinds, Lexer.InBlock kind) :
    ∃ tokens, tokenize source = .ok tokens ∧ (withoutLineEnds tokens).map Token.kind =
      .delimiter .printOpen :: (kinds ++ [.delimiter .blockClose]) := by
  obtain ⟨gap, body, hgap, hbody, hsource⟩ := h
  have hclose : Lexer.Reads true ('}' :: ['}'] ++ []) [.delimiter .blockClose] :=
    .token rfl (by decide) nofun (Lexer.reads_nil false)
  have hbraces : Lexeme.Stops ['}', '}'] := by
    rintro d ⟨⟩
    rfl
  have hinner := Lexer.Reads.gap hgap (.spaced hbody hkinds hbraces hclose)
  have hwhole : Lexer.Reads false ('{' :: ['{', ':'] ++ (gap ++ (body ++ ['}', '}'])))
      (.delimiter .printOpen :: (kinds ++ [.delimiter .blockClose])) :=
    .token rfl (by decide) nofun hinner
  obtain ⟨tokens, htokens, hmap⟩ := hwhole 1 1
  refine ⟨tokens, ?_, hmap⟩
  rw [PageTemplate.tokenize, ← htokens, hsource]
  exact Lexer.readLines_eq_readFrom 0 false '{' _

end PageTemplate
