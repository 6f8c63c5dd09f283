import PageTemplate.Proofs.Pieces
import PageTemplate.Template.Reading

namespace PageTemplate

namespace Nonterminal

/-- A rule for a phrase whose parts are simpler phrases. -/
def simplest : Nonterminal → Rule
  | .start => .start
  | .unit => .unitPrintBlock
  | .block => .block
  | .printBlock => .printBlock
  | .statementList => .statementFirst
  | .expression => .exprLogic
  | .logicExpr => .logicRel
  | .relationExpr => .relAdd
  | .addExpr => .addMult
  | .multExpr => .multUnary
  | .unaryExpr => .unaryTerm
  | .term => .termVar
  | .varRef => .simpleName
  | .funcCall => .funcCall
  | .args => .argsNone
  | .argList => .argFirst
  | .ifStatement => .ifStatement
  | .ifRest => .endTail
  | .forLoop => .forBare
  | .loopInput => .loopString
  | .content => .contentEmpty
  | .item => .itemText

def height : Nonterminal → Nat
  | .varRef | .args | .ifRest | .loopInput | .content | .item => 1
  | .term | .funcCall | .forLoop => 2
  | .unaryExpr => 3
  | .multExpr => 4
  | .addExpr => 5
  | .relationExpr => 6
  | .logicExpr => 7
  | .expression => 8
  | .statementList | .printBlock | .argList | .ifStatement => 9
  | .block | .unit => 10
  | .start => 11

end Nonterminal

/-- A symbol can be derived if a phrase in it is lower than the given height and if it is not the
end of the input. -/
def GrammarSymbol.Below (height : Nat) : GrammarSymbol → Prop
  | .terminal t => t ≠ .endOfInput
  | .phrase n => n.height < height

instance (height : Nat) (symbol : GrammarSymbol) : Decidable (symbol.Below height) := by
  cases symbol <;> unfold GrammarSymbol.Below <;> infer_instance

/-- Checked phrase by phrase: the simplest rule leads to simpler phrases. -/
theorem Nonterminal.simplest_below : ∀ n ∈ Nonterminal.all,
    n.simplest.lhs = n ∧ ∀ symbol ∈ n.simplest.rhs, symbol.Below n.height := by
  decide +kernel

theorem Terminal.exists_token (t : Terminal) (h : t ≠ .endOfInput) :
    ∃ token : Token, token.terminal? = some t := by
  have hkind : ∃ kind : TokenKind, kind.terminal? = some t := by
    cases t with
    | blockOpen => exact ⟨.delimiter .blockOpen, rfl⟩
    | printOpen => exact ⟨.delimiter .printOpen, rfl⟩
    | blockClose => exact ⟨.delimiter .blockClose, rfl⟩
    | text => exact ⟨.text "", rfl⟩
    | ifWord => exact ⟨.keyword .ifWord, rfl⟩
    | elseIfWord => exact ⟨.keyword .elseIfWord, rfl⟩
    | elseWord => exact ⟨.keyword .elseWord, rfl⟩
    | forWord => exact ⟨.keyword .forWord, rfl⟩
    | inWord => exact ⟨.keyword .inWord, rfl⟩
    | endWord => exact ⟨.keyword .endWord, rfl⟩
    | identifier => exact ⟨.identifier "x", rfl⟩
    | dottedName => exact ⟨.dottedName ["x", "y"], rfl⟩
    | string => exact ⟨.string "", rfl⟩
    | number => exact ⟨.number 0, rfl⟩
    | bool => exact ⟨.bool true, rfl⟩
    | leftParen => exact ⟨.symbol '(', rfl⟩
    | rightParen => exact ⟨.symbol ')', rfl⟩
    | comma => exact ⟨.symbol ',', rfl⟩
    | semicolon => exact ⟨.symbol ';', rfl⟩
    | assign => exact ⟨.operator .assign "=", rfl⟩
    | logicOp => exact ⟨.operator .logic "&&", rfl⟩
    | relationOp => exact ⟨.operator .relation "<", rfl⟩
    | plus => exact ⟨.operator .plus "+", rfl⟩
    | minus => exact ⟨.operator .minus "-", rfl⟩
    | multOp => exact ⟨.operator .mult "*", rfl⟩
    | bang => exact ⟨.operator .bang "!", rfl⟩
    | endOfInput => exact absurd rfl h
  obtain ⟨kind, hkind⟩ := hkind
  exact ⟨⟨kind, ⟨1, 1⟩⟩, hkind⟩

theorem Derivations.exists_of_forall {symbols : List GrammarSymbol}
    (h : ∀ symbol ∈ symbols, Nonempty (Derivation symbol)) : Nonempty (Derivations symbols) := by
  induction symbols with
  | nil => exact ⟨.nil⟩
  | cons symbol symbols ih =>
    obtain ⟨first⟩ := h symbol List.mem_cons_self
    obtain ⟨rest⟩ := ih fun other hother => h other (List.mem_cons_of_mem _ hother)
    exact ⟨.cons first rest⟩

/-- Every phrase derives some tokens. -/
theorem Derivation.exists_phrase (n : Nonterminal) : Nonempty (Derivation (.phrase n)) := by
  induction hheight : n.height using Nat.strongRecOn generalizing n with
  | _ height ih =>
    subst hheight
    obtain ⟨hlhs, hbelow⟩ := Nonterminal.simplest_below n n.mem_all
    have hparts : Nonempty (Derivations n.simplest.rhs) := by
      apply Derivations.exists_of_forall
      intro symbol hsymbol
      have hlow := hbelow symbol hsymbol
      cases symbol with
      | terminal t =>
        obtain ⟨token, read⟩ := t.exists_token hlow
        exact ⟨.leaf token read⟩
      | phrase m => exact ih m.height hlow m rfl
    obtain ⟨parts⟩ := hparts
    exact ⟨.node n.simplest hlhs parts⟩

/-- So does every symbol of a rule. -/
theorem Rule.rhs_ne_endOfInput : ∀ rule ∈ all,
    ∀ symbol ∈ rule.rhs, symbol ≠ .terminal .endOfInput := by
  decide +kernel

/-- Whatever has been read of a rule, the rest of it can be derived. -/
theorem Rule.exists_parts (rule : Rule) (read : Nat) :
    Nonempty (Derivations (rule.rhs.drop read)) := by
  apply Derivations.exists_of_forall
  intro symbol hsymbol
  have hne := rhs_ne_endOfInput rule rule.mem_all symbol (List.mem_of_mem_drop hsymbol)
  cases symbol with
  | terminal t =>
    obtain ⟨token, hread⟩ := t.exists_token fun ht => hne (ht ▸ rfl)
    exact ⟨.leaf token hread⟩
  | phrase n => exact Derivation.exists_phrase n

namespace Table

/-- Every state within a unit has begun a rule whose completion makes the stack lighter. -/
theorem begun_lighter : ∀ state ∈ List.range 102, state ≠ 0 → state ≠ 3 →
    ∃ entry ∈ begun[state]?.getD [], entry.1 ≠ .start ∧ 0 < entry.2 ∧
      11 + entry.1.lhs.weight < 11 * entry.2 + weight state := by
  decide +kernel

theorem mem_range_of_edge : ∀ state ∈ List.range 102, ∀ row ∈ rows[state]?,
    (∀ edge ∈ row.shifts, edge.2 ∈ List.range 102) ∧
      ∀ edge ∈ row.gotos, edge.2 ∈ List.range 102 := by
  decide +kernel

theorem next_mem_range {state next : State} {symbol : GrammarSymbol}
    (h : next? state symbol = some next) : next ∈ List.range 102 := by
  have hstate := mem_range_of_next h
  cases symbol with
  | terminal t =>
    obtain ⟨row, hrow, hedge⟩ := mem_shifts_of_next h
    exact (mem_range_of_edge state hstate row hrow).1 _ hedge
  | phrase n =>
    obtain ⟨row, hrow, hedge⟩ := mem_gotos_of_goto h
    exact (mem_range_of_edge state hstate row hrow).2 _ hedge

/-- Every state but the last has a rule under way whose completion makes the stack lighter. -/
theorem exists_underWay {state next : State} {symbol : GrammarSymbol}
    (h : next? state symbol = some next) (hnext : next ≠ 3) :
    ∃ rule read, rule ≠ .start ∧ underWay next rule (read + 1) = true ∧
      11 + rule.lhs.weight < 11 * (read + 1) + weight next := by
  have hzero : next ≠ 0 := by
    rintro rfl
    exact next_ne_zero h
  obtain ⟨⟨rule, count⟩, hentry, hrule, hcount, hweight⟩ :=
    begun_lighter next (next_mem_range h) hzero hnext
  cases count with
  | zero => exact absurd hcount (Nat.lt_irrefl 0)
  | succ read => exact ⟨rule, read, hrule, List.contains_iff_mem.2 hentry, hweight⟩

end Table
namespace Cells

theorem stackWeight_cons (cell : Cell) (below : List Cell) :
    Table.stackWeight ((cell :: below).map Cell.state) =
      11 * (below.length + 1) + Table.weight cell.state := by
  rw [Table.stackWeight, List.map_cons, List.length_cons, List.length_map, List.headD_cons]

/-- Linked cells are the beginning of a unit. -/
theorem Linked.exists_unit {cells : List Cell} (h : Linked cells) :
    ∃ (d : Derivation (.phrase .unit)) (more : List Token), d.yield = yield cells ++ more := by
  induction hweight : Table.stackWeight (cells.map Cell.state) using Nat.strongRecOn
    generalizing cells with
  | _ weight ih =>
    subst hweight
    cases h with
    | nil =>
      obtain ⟨d⟩ := Derivation.exists_phrase .unit
      exact ⟨d, d.yield, rfl⟩
    | @cons cell below rest edge =>
      by_cases htop : cell.state = 3
      · obtain ⟨d, hd⟩ := (Linked.cons rest edge).eq_whole htop
        refine ⟨d, [], ?_⟩
        rw [hd, List.append_nil]
        rfl
      · obtain ⟨rule, read, hrule, hway, hlight⟩ := Table.exists_underWay edge htop
        obtain ⟨parts⟩ := rule.exists_parts (read + 1)
        obtain ⟨above, last, whole, hsplit, hgathers, hlast⟩ :=
          (Linked.cons rest edge).gather hway parts rfl
        obtain ⟨next, hnext⟩ := Table.goto_of_underWay hlast hrule
        -- The rule's cells give way to one cell for its left-hand side.
        have hall := Linked.cons rest edge
        rw [hsplit] at hall
        have hlinked : Linked (⟨next, .phrase rule.lhs, .node rule rfl whole⟩ :: last) :=
          .cons hall.drop (Table.next_phrase.2 hnext)
        have hread := (List.getElem?_eq_some_iff.1 (Table.underWay_of_next edge hway).1).1
        have hlength := hgathers.length_eq
        have hcells := congrArg List.length hsplit
        rw [List.length_cons, List.length_append] at hcells
        have hless : Table.stackWeight
            ((⟨next, .phrase rule.lhs, .node rule rfl whole⟩ :: last : List Cell).map Cell.state) <
              Table.stackWeight ((cell :: below).map Cell.state) := by
          rw [stackWeight_cons, stackWeight_cons, Table.weight_goto hnext]
          rw [List.length_drop] at hlength
          omega
        obtain ⟨d, more, hd⟩ := ih _ hless hlinked rfl
        refine ⟨d, parts.yield ++ more, ?_⟩
        rw [hd, hsplit, yield_append, yield, Derivation.yield, hgathers.yield_eq]
        simp only [List.append_assoc]

end Cells

namespace Parser

open Cells

variable {parser next : Parser} {cells : List Cell} {token : Token} {tokens : List Token}
  {roots : List Node}

/-- A parser that tokens have been pushed to can be brought to the end of a valid document. -/
theorem Holds.exists_completion (h : parser.Holds cells) :
    ∃ more trees, parser.readAll more = .ok trees := by
  cases cells with
  | nil =>
    refine ⟨[], [], ?_⟩
    rw [readAll, finish, if_pos (h.isIdle_iff.2 rfl)]
    rfl
  | cons cell below =>
    obtain ⟨d, more, hyield⟩ := h.linked.exists_unit
    have hrun : Run (cell :: below) more (whole d) [] := by
      apply (h.reached more).resume _ not_step_whole
      rw [← hyield]
      exact d.unit_run
    obtain ⟨root, _, hread⟩ := h.readAll_unit hrun
    refine ⟨more, [root], ?_⟩
    have hend := hread []
    rw [List.append_nil] at hend
    rw [hend]
    rfl

/-- A push leaves the parser at the cells it has come to, completes a piece and leaves it between
pieces, or is refused at its token and the unit is given up. -/
theorem Holds.push_outcome (h : parser.Holds cells) (token : Token) :
    (∃ next after, parser.push token = (.ok none, next) ∧ next.Holds after) ∨
      (∃ root next, parser.push token = (.ok (some root), next) ∧ next.Holds []) ∨
        ∃ state, parser.push token = (.error (.unexpectedToken token state), idle) := by
  cases hterminal : token.terminal? with
  | none => exact .inl ⟨parser, cells, push_skip parser hterminal, h⟩
  | some t =>
    by_cases htext : cells = [] ∧ t = .text
    · obtain ⟨rfl, rfl⟩ := htext
      obtain ⟨content, _, htoken⟩ := push_text (h.isIdle_iff.2 rfl) hterminal
      exact .inr (.inl ⟨_, parser, htoken, h⟩)
    · have hunit : cells = [] → t ≠ .text := fun hnil heq => htext ⟨hnil, heq⟩
      rcases h.push hterminal hunit with ⟨after, later, htoken, hafter, -⟩ |
        ⟨_, _, root, htoken, -⟩ | ⟨state, htoken, -⟩
      · exact .inl ⟨later, after, htoken, hafter⟩
      · exact .inr (.inl ⟨root, idle, htoken, idle_holds⟩)
      · exact .inr (.inr ⟨state, htoken⟩)

/-- A token that is taken leaves a parser with cells again. -/
theorem Holds.push_ok {result : Option Node} (h : parser.Holds cells)
    (hpush : parser.push token = (.ok result, next)) : ∃ after, next.Holds after := by
  rcases h.push_outcome token with ⟨_, after, htoken, hafter⟩ | ⟨_, _, htoken, hafter⟩ |
    ⟨state, htoken⟩
  · rw [htoken] at hpush
    cases hpush
    exact ⟨after, hafter⟩
  · rw [htoken] at hpush
    cases hpush
    exact ⟨[], hafter⟩
  · rw [htoken] at hpush
    cases hpush

/-- A push fails at its token only, in some state, and then the unit is given up. -/
theorem Holds.push_error {e : ParseError} (h : parser.Holds cells)
    (hpush : parser.push token = (.error e, next)) :
    (∃ state, e = .unexpectedToken token state) ∧ next = idle := by
  rcases h.push_outcome token with ⟨_, _, htoken, -⟩ | ⟨_, _, htoken, -⟩ | ⟨state, htoken⟩
  · rw [htoken] at hpush
    cases hpush
  · rw [htoken] at hpush
    cases hpush
  · rw [htoken] at hpush
    cases hpush
    exact ⟨⟨state, rfl⟩, rfl⟩

theorem pushAll_cons (hpush : parser.pushAll (token :: tokens) = (roots, .ok next)) :
    ∃ result later rest, parser.push token = (.ok result, later) ∧
      later.pushAll tokens = (rest, .ok next) ∧ roots = result.toList ++ rest := by
  rw [pushAll] at hpush
  split at hpush
  · cases hpush
  · next result later htoken =>
    obtain ⟨hroots, hnext⟩ := Prod.mk.inj hpush
    exact ⟨result, later, _, htoken, Prod.ext rfl hnext, hroots.symm⟩

/-- By induction on the tokens: cells are there after all of them. -/
theorem Holds.pushAll_ok (h : parser.Holds cells)
    (hpush : parser.pushAll tokens = (roots, .ok next)) : ∃ after, next.Holds after := by
  induction tokens generalizing parser cells roots with
  | nil =>
    cases hpush
    exact ⟨cells, h⟩
  | cons token tokens ih =>
    obtain ⟨result, later, rest, htoken, hrest, -⟩ := pushAll_cons hpush
    obtain ⟨after, hafter⟩ := h.push_ok htoken
    exact ih hafter hrest

/-- Reading goes on behind tokens that have been pushed. -/
theorem readAll_append (hpush : parser.pushAll tokens = (roots, .ok next)) (more : List Token) :
    parser.readAll (tokens ++ more) = (next.readAll more).map (roots ++ ·) := by
  induction tokens generalizing parser roots with
  | nil =>
    cases hpush
    rw [List.nil_append]
    cases next.readAll more <;> rfl
  | cons token tokens ih =>
    obtain ⟨result, later, rest, htoken, hrest, rfl⟩ := pushAll_cons hpush
    have hread := ih hrest
    rw [List.cons_append, readAll, htoken]
    cases result with
    | none => exact hread
    | some root =>
      simp only [hread]
      cases next.readAll more <;> rfl

end Parser

/-- As long as tokens can be pushed they are the beginning of a valid document, and a token is
refused exactly if no valid document goes on with it. -/
theorem push_refuses_iff {tokens : List Token} {roots : List Node} {parser : Parser}
    (h : Parser.idle.pushAll tokens = (roots, .ok parser)) :
    (∃ more trees, parse (tokens ++ more) = .ok trees) ∧
      ∀ token, (∃ state, (parser.push token).1 = .error (.unexpectedToken token state)) ↔
        ¬ ∃ more trees, parse (tokens ++ token :: more) = .ok trees := by
  obtain ⟨cells, hholds⟩ := Parser.idle_holds.pushAll_ok h
  constructor
  · obtain ⟨more, trees, hread⟩ := hholds.exists_completion
    refine ⟨more, roots ++ trees, ?_⟩
    rw [parse, Parser.readAll_append h, hread]
    rfl
  · intro token
    constructor
    · rintro ⟨state, hpush⟩ ⟨more, trees, hparse⟩
      rw [parse, Parser.readAll_append h, Parser.readAll] at hparse
      rcases hresult : parser.push token with ⟨result, next⟩
      rw [hresult] at hpush hparse
      cases hpush
      cases hparse
    · intro hnone
      -- whatever the token leads to, it can be completed if it has been taken
      rcases hresult : parser.push token with ⟨result, next⟩
      cases result with
      | error e =>
        obtain ⟨⟨state, rfl⟩, -⟩ := hholds.push_error hresult
        exact ⟨state, rfl⟩
      | ok result =>
        obtain ⟨after, hafter⟩ := hholds.push_ok hresult
        obtain ⟨more, trees, hread⟩ := hafter.exists_completion
        refine absurd ⟨more, roots ++ (result.toList ++ trees), ?_⟩ hnone
        rw [parse, Parser.readAll_append h, Parser.readAll, hresult]
        cases result with
        | none =>
          simp only [hread]
          rfl
        | some root =>
          simp only [hread]
          rfl

theorem push_refuses_after_opening :
    Parser.idle.pushAll [⟨.delimiter .printOpen, ⟨1, 1⟩⟩] =
        ([], .ok ⟨[⟨2, .token ⟨.delimiter .printOpen, ⟨1, 1⟩⟩⟩], ⟨1, 1⟩⟩) ∧
      (∃ more trees, parse ([⟨.delimiter .printOpen, ⟨1, 1⟩⟩] ++ more) = .ok trees) ∧
        ∀ token, (∃ state, (Parser.push ⟨[⟨2, .token ⟨.delimiter .printOpen, ⟨1, 1⟩⟩⟩], ⟨1, 1⟩⟩
            token).1 = .error (.unexpectedToken token state)) ↔
          ¬ ∃ more trees,
            parse ([⟨.delimiter .printOpen, ⟨1, 1⟩⟩] ++ token :: more) = .ok trees := by
  have hpush : Parser.idle.pushAll [⟨.delimiter .printOpen, ⟨1, 1⟩⟩] =
      ([], .ok ⟨[⟨2, .token ⟨.delimiter .printOpen, ⟨1, 1⟩⟩⟩], ⟨1, 1⟩⟩) := by cbv
  exact ⟨hpush, push_refuses_iff hpush⟩

end PageTemplate
