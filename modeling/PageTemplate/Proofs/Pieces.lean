import PageTemplate.Proofs.Units

namespace PageTemplate

/-- A piece of text between units, or a unit with its derivation. -/
inductive Piece
  | text (content : String) (pos : Position)
  | unit (tree : Derivation (.phrase .unit))

namespace Piece

def tokens : Piece → List Token
  | .text content pos => [⟨.text content, pos⟩]
  | .unit tree => tree.yield

/-- The tree of a piece: the text as a leaf, or what the rules build from the leaves up. -/
def Makes : Piece → Node → Prop
  | .text content pos, root => root = .leaf (.text content) pos
  | .unit tree, root => ∀ ahead, tree.entry ahead = .ok (.node root)

end Piece

def withoutLineEnds (tokens : List Token) : List Token :=
  tokens.filter fun token => token.kind ≠ .endOfLine

theorem Token.terminal_eq_none_iff {token : Token} :
    token.terminal? = none ↔ token.kind = .endOfLine := by
  unfold Token.terminal? TokenKind.terminal?
  constructor
  · intro h
    split at h <;> first | assumption | cases h
  · intro h
    rw [h]

theorem withoutLineEnds_skip {token : Token} (h : token.terminal? = none) (tokens : List Token) :
    withoutLineEnds (token :: tokens) = withoutLineEnds tokens := by
  have hkind := Token.terminal_eq_none_iff.1 h
  rw [withoutLineEnds, List.filter_cons_of_neg (by simp [hkind]), withoutLineEnds]

theorem withoutLineEnds_keep {token : Token} {t : Terminal} (h : token.terminal? = some t)
    (tokens : List Token) :
    withoutLineEnds (token :: tokens) = token :: withoutLineEnds tokens := by
  have hkind : token.kind ≠ .endOfLine := by
    intro hkind
    rw [Token.terminal_eq_none_iff.2 hkind] at h
    cases h
  rw [withoutLineEnds, List.filter_cons_of_pos (by simp [hkind]), withoutLineEnds]

theorem withoutLineEnds_append (front back : List Token) :
    withoutLineEnds (front ++ back) = withoutLineEnds front ++ withoutLineEnds back :=
  List.filter_append front back

namespace Parser

open Cells

variable {parser : Parser} {cells : List Cell} {token : Token} {t : Terminal} {tokens : List Token}
  {roots : List Node}

/-- A token that the grammar does not read changes nothing, not even inside a unit. -/
theorem push_skip (parser : Parser) (h : token.terminal? = none) :
    parser.push token = (.ok none, parser) := by
  unfold push
  rw [h]

theorem readAll_skip (parser : Parser) (h : token.terminal? = none) (tokens : List Token) :
    parser.readAll (token :: tokens) = parser.readAll tokens := by
  rw [readAll, push_skip parser h]

/-- The ends of lines make no difference to what is read. -/
theorem readAll_withoutLineEnds (parser : Parser) (tokens : List Token) :
    parser.readAll (withoutLineEnds tokens) = parser.readAll tokens := by
  induction tokens generalizing parser with
  | nil => rfl
  | cons token tokens ih =>
    cases h : token.terminal? with
    | none => rw [withoutLineEnds_skip h, readAll_skip parser h, ih]
    | some t =>
      rw [withoutLineEnds_keep h, readAll, readAll]
      split
      · rfl
      · exact ih _
      · rw [ih]

/-- Text between units is a piece of its own. -/
theorem push_text (hidle : parser.isIdle = true) (read : token.terminal? = some .text) :
    ∃ content, token.kind = .text content ∧
      parser.push token = (.ok (some (.leaf (.text content) token.pos)), parser) := by
  have hkind : ∃ content, token.kind = .text content := token.holds_of_terminal read
  obtain ⟨content, hkind⟩ := hkind
  refine ⟨content, hkind, ?_⟩
  unfold Parser.push
  rw [read]
  simp only [hkind, hidle]

theorem Holds.readAll_nil (h : parser.Holds cells) (hread : parser.readAll [] = .ok roots) :
    cells = [] ∧ roots = [] := by
  rw [readAll, finish] at hread
  split at hread
  · next hidle =>
    cases hread
    exact ⟨h.isIdle_iff.1 hidle, rfl⟩
  · cases hread

theorem map_eq_ok {α β ε : Type} {result : Except ε α} {f : α → β} {b : β}
    (h : result.map f = .ok b) : ∃ a, result = .ok a ∧ f a = b := by
  cases result with
  | error e => cases h
  | ok a =>
    cases h
    exact ⟨a, rfl, rfl⟩

/-- What a parser reads together with what it has begun is made of pieces; the trees are theirs. -/
theorem Holds.pieces_of_readAll (h : parser.Holds cells)
    (hread : parser.readAll tokens = .ok roots) :
    ∃ pieces : List Piece, yield cells ++ withoutLineEnds tokens = pieces.flatMap Piece.tokens ∧
      List.Forall₂ Piece.Makes pieces roots := by
  induction tokens generalizing parser cells roots with
  | nil =>
    obtain ⟨rfl, rfl⟩ := h.readAll_nil hread
    exact ⟨[], rfl, .nil⟩
  | cons token tokens ih =>
    cases hterminal : token.terminal? with
    | none =>
      rw [readAll_skip parser hterminal] at hread
      rw [withoutLineEnds_skip hterminal]
      exact ih h hread
    | some t =>
      rw [withoutLineEnds_keep hterminal]
      -- a text between two units is a piece by itself and does not reach the table
      by_cases htext : cells = [] ∧ t = .text
      · obtain ⟨rfl, rfl⟩ := htext
        obtain ⟨content, hkind, hpush⟩ := push_text (h.isIdle_iff.2 rfl) hterminal
        rw [readAll, hpush] at hread
        obtain ⟨later, hlater, rfl⟩ := map_eq_ok hread
        obtain ⟨pieces, hpieces, hmakes⟩ := ih h hlater
        refine ⟨.text content token.pos :: pieces, ?_, .cons rfl hmakes⟩
        rw [List.flatMap_cons, ← hpieces, Piece.tokens, ← hkind]
        rfl
      · have hunit : cells = [] → t ≠ .text := fun hnil heq => htext ⟨hnil, heq⟩
        rcases h.push hterminal hunit with ⟨after, next, hpush, hnext, -, hrun⟩ |
          ⟨after, d, root, hpush, hwhole, hrun, hentry⟩ | ⟨state, hpush, -⟩
        · rw [readAll, hpush] at hread
          obtain ⟨pieces, hpieces, hmakes⟩ := ih hnext hread
          refine ⟨pieces, ?_, hmakes⟩
          rw [← hpieces, ← (hrun _).yield_eq]
        · rw [readAll, hpush] at hread
          obtain ⟨later, hlater, rfl⟩ := map_eq_ok hread
          obtain ⟨pieces, hpieces, hmakes⟩ := ih idle_holds hlater
          refine ⟨.unit d :: pieces, ?_, .cons hentry hmakes⟩
          have hyield : d.yield = yield after := by
            have hyield := hwhole.yield_eq
            rwa [List.append_nil, List.append_nil] at hyield
          rw [List.flatMap_cons, ← hpieces, Piece.tokens, hyield, ← (hrun _).yield_eq]
          rfl
        · rw [readAll, hpush] at hread
          cases hread

end Parser

/-- Every accepted sequence of tokens is made of pieces of text and units, one for each tree. -/
theorem pieces_of_parse {tokens : List Token} {roots : List Node} (h : parse tokens = .ok roots) :
    ∃ pieces : List Piece, withoutLineEnds tokens = pieces.flatMap Piece.tokens ∧
      List.Forall₂ Piece.Makes pieces roots :=
  Parser.idle_holds.pieces_of_readAll h

/-- Text, and a block over two lines that prints a variable. -/
def printedName : List Token :=
  [⟨.text "a", ⟨1, 1⟩⟩, ⟨.delimiter .printOpen, ⟨1, 2⟩⟩, ⟨.identifier "x", ⟨1, 5⟩⟩,
    ⟨.endOfLine, ⟨1, 6⟩⟩, ⟨.delimiter .blockClose, ⟨2, 1⟩⟩]

def printedNameTrees : List Node :=
  [.leaf (.text "a") ⟨1, 1⟩, ⟨.printBlock, [.leaf (.varName ["x"]) ⟨1, 5⟩], ⟨1, 2⟩⟩]

theorem pieces_of_printedName : parse printedName = .ok printedNameTrees ∧
    ∃ pieces : List Piece, withoutLineEnds printedName = pieces.flatMap Piece.tokens ∧
      List.Forall₂ Piece.Makes pieces printedNameTrees := by
  have hparse : parse printedName = .ok printedNameTrees := by cbv
  exact ⟨hparse, pieces_of_parse hparse⟩

theorem Derivation.unit_ne_nil (d : Derivation (.phrase .unit)) : d.yield ≠ [] := by
  intro hnil
  exact absurd (d.nullable_of_yield hnil) (by decide)

/-- A unit begins with an opening delimiter. -/
theorem Derivation.unit_opens (d : Derivation (.phrase .unit)) {token : Token} {rest : List Token}
    (h : d.yield = token :: rest) : token.terminal? ≠ some .text := by
  intro htext
  have hstarts := d.nextTerminal_mem d.unit_ne_nil
  rw [h, nextTerminal_cons htext] at hstarts
  exact absurd hstarts (by decide)

/-- The machine runs over the tokens of a unit to the unit as a whole. -/
theorem Derivation.unit_run (d : Derivation (.phrase .unit)) :
    Cells.Run [] d.yield (Cells.whole d) [] := by
  have hend : (GrammarSymbol.phrase .unit).Follows (nextTerminal []) := List.mem_singleton.2 rfl
  have hrun := @Derivation.run _ d [] [] 3 Table.next_unit hend
  rwa [List.append_nil] at hrun

namespace Parser

open Cells

/-- A unit that the machine can finish is read to its end, whatever stands behind it. -/
theorem Holds.readAll_unit {parser : Parser} {cells : List Cell} {d : Derivation (.phrase .unit)}
    {front : List Token} (h : parser.Holds cells) (hrun : Run cells front (whole d) []) :
    ∃ root, (∀ ahead, d.entry ahead = .ok (.node root)) ∧ ∀ rest,
      parser.readAll (front ++ rest) = (idle.readAll rest).map (root :: ·) := by
  induction front generalizing parser cells with
  | nil => exact absurd hrun (h.unfinished d)
  | cons token front ih =>
    have hyield : d.yield = yield cells ++ (token :: front) := by
      have hyield := hrun.yield_eq
      rwa [List.append_nil] at hyield
    have hmem : token ∈ d.yield := by
      rw [hyield]
      exact List.mem_append_right _ List.mem_cons_self
    obtain ⟨t, read⟩ := Option.isSome_iff_exists.1 (d.readable_of_mem hmem)
    have hunit : cells = [] → t ≠ .text := by
      rintro rfl rfl
      exact d.unit_opens hyield read
    rcases h.push read hunit with ⟨after, next, hpush, hnext, -, hover⟩ |
      ⟨after, e, root, hpush, hwhole, hover, hentry⟩ | ⟨state, hpush, hstuck⟩
    · obtain ⟨root, hentry, hread⟩ := ih hnext ((hover front).resume hrun not_step_whole)
      refine ⟨root, hentry, fun rest => ?_⟩
      rw [List.cons_append, readAll, hpush]
      exact hread rest
    · have hlast := (hover front).resume hrun not_step_whole
      -- the unit that is complete now is the one that was to be read
      obtain ⟨rfl, rfl⟩ := hwhole.whole_unique hlast
      refine ⟨root, hentry, fun rest => ?_⟩
      rw [List.singleton_append, readAll, hpush]
    · cases hstuck front _ _ hrun

/-- By induction on the pieces: between them the parser is as it was at the beginning. -/
theorem readAll_pieces {pieces : List Piece} {parser : Parser} (h : parser.Holds []) :
    ∃ roots, parser.readAll (pieces.flatMap Piece.tokens) = .ok roots ∧
      List.Forall₂ Piece.Makes pieces roots := by
  induction pieces generalizing parser with
  | nil =>
    refine ⟨[], ?_, .nil⟩
    rw [List.flatMap_nil, readAll, finish, if_pos (h.isIdle_iff.2 rfl)]
    rfl
  | cons piece pieces ih =>
    cases piece with
    | text content pos =>
      obtain ⟨roots, hroots, hmakes⟩ := ih h
      have hread : Token.terminal? ⟨.text content, pos⟩ = some .text := rfl
      obtain ⟨content', hkind, hpush⟩ := push_text (h.isIdle_iff.2 rfl) hread
      injection hkind with hcontent
      subst hcontent
      refine ⟨.leaf (.text content) pos :: roots, ?_, .cons rfl hmakes⟩
      rw [List.flatMap_cons, Piece.tokens, List.singleton_append, readAll, hpush]
      simp only [hroots]
      rfl
    | unit d =>
      obtain ⟨roots, hroots, hmakes⟩ := ih idle_holds
      obtain ⟨root, hentry, hread⟩ := h.readAll_unit d.unit_run
      refine ⟨root :: roots, ?_, .cons hentry hmakes⟩
      rw [List.flatMap_cons, Piece.tokens, hread, hroots]
      rfl

end Parser

namespace Piece

theorem tokens_ne_nil (piece : Piece) : piece.tokens ≠ [] := by
  cases piece with
  | text content pos => exact List.cons_ne_nil _ _
  | unit d => exact d.unit_ne_nil

/-- A unit is no part of another one that begins at the same place. -/
theorem unit_unique {d e : Derivation (.phrase .unit)} {after rest : List Token}
    (h : d.yield ++ after = e.yield ++ rest) : d = e ∧ after = rest := by
  rcases List.append_eq_append_iff.1 h with ⟨middle, he, hafter⟩ | ⟨middle, hd, hrest⟩
  · obtain ⟨rfl, rfl⟩ := d.unit_run.whole_unique (he ▸ e.unit_run)
    exact ⟨rfl, hafter⟩
  · obtain ⟨rfl, rfl⟩ := e.unit_run.whole_unique (hd ▸ d.unit_run)
    exact ⟨rfl, hrest.symm⟩

/-- A text and a unit begin with different tokens. -/
theorem text_ne_unit {content : String} {pos : Position} {d : Derivation (.phrase .unit)}
    {after rest : List Token} : (text content pos).tokens ++ after ≠ d.yield ++ rest := by
  intro h
  cases hyield : d.yield with
  | nil => exact d.unit_ne_nil hyield
  | cons token others =>
    rw [hyield, tokens, List.singleton_append, List.cons_append] at h
    obtain ⟨rfl, _⟩ := List.cons.inj h
    exact d.unit_opens hyield rfl

/-- There is one way at most to cut tokens into pieces. -/
theorem flatMap_tokens_inj {pieces others : List Piece}
    (h : others.flatMap tokens = pieces.flatMap tokens) : others = pieces := by
  induction pieces generalizing others with
  | nil =>
    cases others with
    | nil => rfl
    | cons other others =>
      rw [List.flatMap_nil, List.flatMap_cons] at h
      exact absurd (List.append_eq_nil_iff.1 h).1 other.tokens_ne_nil
  | cons piece pieces ih =>
    cases others with
    | nil =>
      rw [List.flatMap_nil, List.flatMap_cons] at h
      exact absurd (List.append_eq_nil_iff.1 h.symm).1 piece.tokens_ne_nil
    | cons other others =>
      rw [List.flatMap_cons, List.flatMap_cons] at h
      have hsame : other = piece ∧ others.flatMap tokens = pieces.flatMap tokens := by
        cases other with
        | text content pos =>
          cases piece with
          | text content' pos' =>
            obtain ⟨hhead, htail⟩ := List.cons.inj h
            cases hhead
            exact ⟨rfl, htail⟩
          | unit d => exact absurd h text_ne_unit
        | unit d =>
          cases piece with
          | text content pos => exact absurd h.symm text_ne_unit
          | unit e =>
            obtain ⟨rfl, htail⟩ := unit_unique h
            exact ⟨rfl, htail⟩
      rw [hsame.1, ih hsame.2]

end Piece

/-- The parser reads every sequence of pieces. -/
theorem trees_of_pieces {tokens : List Token} {pieces : List Piece}
    (h : withoutLineEnds tokens = pieces.flatMap Piece.tokens) :
    ∃ roots, parse tokens = .ok roots ∧ List.Forall₂ Piece.Makes pieces roots := by
  obtain ⟨roots, hroots, hmakes⟩ := @Parser.readAll_pieces pieces _ Parser.idle_holds
  refine ⟨roots, ?_, hmakes⟩
  rw [parse, ← Parser.readAll_withoutLineEnds, h, hroots]

/-- The parser reads every sequence of pieces, also where lines end in between, and makes the tree
of each; the tokens can be cut into pieces in this way only. -/
theorem parse_of_pieces {tokens : List Token} {pieces : List Piece}
    (h : withoutLineEnds tokens = pieces.flatMap Piece.tokens) :
    (∃ roots, parse tokens = .ok roots ∧ List.Forall₂ Piece.Makes pieces roots) ∧
      ∀ others : List Piece, others.flatMap Piece.tokens = withoutLineEnds tokens →
        others = pieces := by
  refine ⟨trees_of_pieces h, ?_⟩
  intro others hothers
  exact Piece.flatMap_tokens_inj (hothers.trans h)

def Derivation.ofName (token : Token) (read : token.terminal? = some .identifier) :
    Derivation (.phrase .expression) :=
  let name : Derivation (.phrase .varRef) := .node .simpleName rfl (.cons (.leaf token read) .nil)
  let term : Derivation (.phrase .term) := .node .termVar rfl (.cons name .nil)
  let unary : Derivation (.phrase .unaryExpr) := .node .unaryTerm rfl (.cons term .nil)
  let mult : Derivation (.phrase .multExpr) := .node .multUnary rfl (.cons unary .nil)
  let add : Derivation (.phrase .addExpr) := .node .addMult rfl (.cons mult .nil)
  let relation : Derivation (.phrase .relationExpr) := .node .relAdd rfl (.cons add .nil)
  let logic : Derivation (.phrase .logicExpr) := .node .logicRel rfl (.cons relation .nil)
  .node .exprLogic rfl (.cons logic .nil)

def printedNamePieces : List Piece :=
  let first : Derivation (.terminal .printOpen) := .leaf ⟨.delimiter .printOpen, ⟨1, 2⟩⟩ rfl
  let last : Derivation (.terminal .blockClose) := .leaf ⟨.delimiter .blockClose, ⟨2, 1⟩⟩ rfl
  let name := Derivation.ofName ⟨.identifier "x", ⟨1, 5⟩⟩ rfl
  let block : Derivation (.phrase .printBlock) :=
    .node .printBlock rfl (.cons first (.cons name (.cons last .nil)))
  [.text "a" ⟨1, 1⟩, .unit (.node .unitPrintBlock rfl (.cons block .nil))]

theorem parse_of_printedNamePieces :
    withoutLineEnds printedName = printedNamePieces.flatMap Piece.tokens ∧
      (∃ roots, parse printedName = .ok roots ∧ List.Forall₂ Piece.Makes printedNamePieces roots) ∧
        ∀ others : List Piece, others.flatMap Piece.tokens = withoutLineEnds printedName →
          others = printedNamePieces := by
  have hpieces : withoutLineEnds printedName = printedNamePieces.flatMap Piece.tokens := by rfl
  exact ⟨hpieces, parse_of_pieces hpieces⟩

end PageTemplate
