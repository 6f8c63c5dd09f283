import PageTemplate.Proofs.Building
import PageTemplate.Proofs.Items

/-!
The automaton as a machine on derivations. A cell is a state with the derivation read on the way
into it; a step moves on over a token or puts the derivations of a right-hand side together. What
has been checked of the table says how a rule under way leads on and where it is applied: so the
machine finds every derivation of a unit, and on the tokens of a unit it finds no other.
-/

namespace PageTemplate

structure Cell where
  state : State
  symbol : GrammarSymbol
  tree : Derivation symbol

namespace Cells

def top : List Cell → State
  | [] => 0
  | cell :: _ => cell.state

def yield : List Cell → List Token
  | [] => []
  | cell :: below => yield below ++ cell.tree.yield

/-- Every cell is where the table goes from the cell before over its symbol. -/
inductive Linked : List Cell → Prop
  | nil : Linked []
  | cons {cell : Cell} {below : List Cell} (rest : Linked below)
    (edge : Table.next? (top below) cell.symbol = some cell.state) : Linked (cell :: below)

/-- The derivations of the cells, put in front of `parts` one after the other. -/
inductive Gathers : {symbols all : List GrammarSymbol} →
    List Cell → Derivations symbols → Derivations all → Prop
  | nil {symbols : List GrammarSymbol} (parts : Derivations symbols) : Gathers [] parts parts
  | cons {symbols all : List GrammarSymbol} {cell : Cell} {above : List Cell}
    {parts : Derivations symbols} {whole : Derivations all}
    (rest : Gathers above (.cons cell.tree parts) whole) : Gathers (cell :: above) parts whole

inductive Step : List Cell → List Token → List Cell → List Token → Prop
  | shift {cells : List Cell} {token : Token} {rest : List Token} {t : Terminal} {next : State}
    (read : token.terminal? = some t)
    (moves : Table.action? (top cells) t = some (.shift next)) :
    Step cells (token :: rest) (⟨next, .terminal t, .leaf token read⟩ :: cells) rest
  | reduce {cells above below : List Cell} {tokens : List Token} {rule : Rule}
    {whole : Derivations rule.rhs} {next : State}
    (asks : Table.action? (top cells) (nextTerminal tokens) = some (.reduce rule))
    (splits : cells = above ++ below) (gathers : Gathers above .nil whole)
    (leads : Table.goto? (top below) rule.lhs = some next) :
    Step cells tokens (⟨next, .phrase rule.lhs, .node rule rfl whole⟩ :: below) tokens

inductive Run : List Cell → List Token → List Cell → List Token → Prop
  | refl (cells : List Cell) (tokens : List Token) : Run cells tokens cells tokens
  | head {cells mid last : List Cell} {tokens rest final : List Token}
    (step : Step cells tokens mid rest) (run : Run mid rest last final) :
    Run cells tokens last final

end Cells

namespace Table

/-- A symbol that leads into a state is the last one read of every rule begun there. -/
theorem underWay_of_next {state next : State} {symbol : GrammarSymbol} {rule : Rule} {read : Nat}
    (hnext : next? state symbol = some next) (h : underWay next rule (read + 1) = true) :
    rule.rhs[read]? = some symbol ∧ underWay state rule read = true := by
  have hstate := mem_range_of_next hnext
  have hback : Backward state next symbol := by
    cases symbol with
    | terminal t =>
      obtain ⟨row, hrow, hedge⟩ := mem_shifts_of_next hnext
      exact (coherent.backward state hstate row hrow).1 _ hedge
    | phrase n =>
      obtain ⟨row, hrow, hedge⟩ := mem_gotos_of_goto hnext
      exact (coherent.backward state hstate row hrow).2 _ hedge
  exact hback (rule, read + 1) (List.contains_iff_mem.1 h)

/-- A phrase that leads on from a state has all its rules under way there. -/
theorem underWay_of_goto {state next : State} {rule : Rule}
    (h : goto? state rule.lhs = some next) : underWay state rule 0 = true := by
  simp [underWay, h]

/-- Where a rule may begin, its phrase leads somewhere. -/
theorem goto_of_underWay {state : State} {rule : Rule} (h : underWay state rule 0 = true)
    (hrule : rule ≠ .start) : ∃ next, goto? state rule.lhs = some next := by
  simpa [underWay, hrule, Option.isSome_iff_exists] using h

theorem mem_begun_of_underWay {state : State} {rule : Rule} {read : Nat}
    (h : underWay state rule (read + 1) = true) :
    (rule, read + 1) ∈ begun[state]?.getD [] ∧ state ∈ List.range 102 := by
  have hentry := List.contains_iff_mem.1 h
  refine ⟨hentry, ?_⟩
  rcases Nat.lt_or_ge state begun.size with hlt | hge
  · exact List.mem_range.2 hlt
  · rw [Array.getElem?_eq_none hge] at hentry
    exact absurd hentry List.not_mem_nil

/-- A rule under way leads on over its next symbol. -/
theorem next_of_underWay {state : State} {rule : Rule} {read : Nat} {symbol : GrammarSymbol}
    (h : underWay state rule read = true) (hread : rule.rhs[read]? = some symbol) :
    ∃ next, next? state symbol = some next ∧ underWay next rule (read + 1) = true := by
  cases read with
  | succ read =>
    obtain ⟨hentry, hstate⟩ := mem_begun_of_underWay h
    exact coherent.forward state hstate _ hentry symbol hread
  | zero =>
    by_cases hrule : rule = .start
    · subst hrule
      have hstate : state = 0 := by
        cases hgoto : goto? state .start with
        | none => simpa [underWay, hgoto, Rule.lhs] using h
        | some next =>
          rw [coherent.start state (mem_range_of_goto hgoto)] at hgoto
          cases hgoto
      have hsymbol : symbol = .phrase .unit := by
        simpa [Rule.rhs] using hread.symm
      subst hstate hsymbol
      exact ⟨3, by decide, by decide⟩
    · -- nothing is read yet: the rule begins here because its own phrase is asked for
      obtain ⟨next, hnext⟩ := goto_of_underWay h hrule
      obtain ⟨row, hrow, hedge⟩ := mem_gotos_of_goto hnext
      have hfor : rule ∈ rulesFor rule.lhs :=
        List.mem_filter.2 ⟨rule.mem_all, decide_eq_true rfl⟩
      exact coherent.fresh state (mem_range_of_goto hnext) row hrow _ hedge rule hfor symbol hread

/-- A complete rule is applied before every token that can stand behind its left-hand side. -/
theorem reduce_of_underWay {state : State} {rule : Rule} {t : Terminal} (hrule : rule ≠ .start)
    (h : underWay state rule rule.rhs.length = true) (ht : t ∈ rule.lhs.follow) :
    action? state t = some (.reduce rule) := by
  cases hlen : rule.rhs.length with
  | zero =>
    rw [hlen] at h
    obtain ⟨next, hnext⟩ := goto_of_underWay h hrule
    obtain ⟨row, hrow, hedge⟩ := mem_gotos_of_goto hnext
    have hfor : rule ∈ rulesFor rule.lhs :=
      List.mem_filter.2 ⟨rule.mem_all, decide_eq_true rfl⟩
    exact coherent.empty state (mem_range_of_goto hnext) row hrow _ hedge rule hfor
      (List.length_eq_zero_iff.1 hlen) t ht
  | succ read =>
    rw [hlen] at h
    obtain ⟨hentry, hstate⟩ := mem_begun_of_underWay h
    exact coherent.complete state hstate _ hentry hlen.symm hrule t ht

/-- The table rebuilds by complete rules only. -/
theorem underWay_of_reduce {state : State} {t : Terminal} {rule : Rule}
    (h : action? state t = some (.reduce rule)) :
    underWay state rule rule.rhs.length = true ∧ rule ≠ .start := by
  obtain ⟨row, hrow, entry, hentry, rfl⟩ := mem_reductions_of_action h
  exact coherent.reductions state (mem_range_of_action h) row hrow entry hentry

/-- There is one state that accepts, and it does so at the end of the input only. -/
theorem accept_iff {state : State} {t : Terminal} :
    action? state t = some .accept ↔ state = 3 ∧ t = .endOfInput := by
  constructor
  · intro h
    exact coherent.accept state (mem_range_of_action h) t t.mem_all h
  · rintro ⟨rfl, rfl⟩
    decide

/-- The accepting state is entered with a whole unit from the first state only. -/
theorem eq_unit_of_next {state : State} {symbol : GrammarSymbol}
    (h : next? state symbol = some 3) : state = 0 ∧ symbol = .phrase .unit := by
  have hstate := mem_range_of_next h
  cases symbol with
  | terminal t =>
    obtain ⟨row, hrow, hedge⟩ := mem_shifts_of_next h
    exact absurd rfl ((coherent.unit state hstate row hrow).1 _ hedge).1
  | phrase n =>
    obtain ⟨row, hrow, hedge⟩ := mem_gotos_of_goto h
    obtain ⟨h0, hn⟩ := ((coherent.unit state hstate row hrow).2 _ hedge).1 rfl
    exact ⟨h0, congrArg GrammarSymbol.phrase hn⟩

theorem next_unit : next? 0 (.phrase .unit) = some 3 := by
  decide

/-- Nothing leads back to the first state. -/
theorem next_ne_zero {state : State} {symbol : GrammarSymbol} : next? state symbol ≠ some 0 := by
  intro h
  have hstate := mem_range_of_next h
  cases symbol with
  | terminal t =>
    obtain ⟨row, hrow, hedge⟩ := mem_shifts_of_next h
    exact ((coherent.unit state hstate row hrow).1 _ hedge).2 rfl
  | phrase n =>
    obtain ⟨row, hrow, hedge⟩ := mem_gotos_of_goto h
    exact ((coherent.unit state hstate row hrow).2 _ hedge).2 rfl

/-- Where something is done at the end of the input, nothing but the same reduction is done before
a token. -/
theorem reduce_of_end {state : State} {t : Terminal} {atEnd action : Action}
    (hend : action? state .endOfInput = some atEnd) (ht : t ≠ .endOfInput)
    (h : action? state t = some action) : action = atEnd ∧ ∃ rule, action = .reduce rule := by
  obtain ⟨heq, rule, _, hrule⟩ :=
    coherent.ending state (mem_range_of_action h) atEnd hend t t.mem_all ht action h
  exact ⟨heq, rule, hrule⟩

/-- Of all tokens only a closing delimiter leads to a state in which the input may end. -/
theorem eq_blockClose_of_shift {state next : State} {t : Terminal} {atEnd : Action}
    (h : action? state t = some (.shift next))
    (hend : action? next .endOfInput = some atEnd) : t = .blockClose := by
  obtain ⟨row, hrow, hedge⟩ := mem_shifts_of_next (next_terminal.2 h)
  have hclose := (coherent.close state (mem_range_of_action h) row hrow _ hedge).2
  exact hclose (by rw [hend]; rfl)

end Table

attribute [local irreducible] Table.action? Table.goto? Table.next? Table.underWay

namespace Cells

theorem Run.trans {a b c : List Cell} {s t u : List Token} (first : Run a s b t)
    (second : Run b t c u) : Run a s c u := by
  induction first with
  | refl => exact second
  | head step _ ih => exact .head step (ih second)

theorem Run.single {a b : List Cell} {s t : List Token} (step : Step a s b t) : Run a s b t :=
  .head step (.refl b t)

/-- As many cells are gathered as there are symbols in front of the parts. -/
theorem Gathers.length_eq {symbols all : List GrammarSymbol} {above : List Cell}
    {parts : Derivations symbols} {whole : Derivations all} (h : Gathers above parts whole) :
    above.length + symbols.length = all.length := by
  induction h with
  | nil => exact Nat.zero_add _
  | cons _ ih =>
    rw [List.length_cons] at ih ⊢
    omega

/-- The tokens of the gathered cells come before those of the parts. -/
theorem Gathers.yield_eq {symbols all : List GrammarSymbol} {above : List Cell}
    {parts : Derivations symbols} {whole : Derivations all} (h : Gathers above parts whole) :
    whole.yield = yield above ++ parts.yield := by
  induction h with
  | nil => rfl
  | cons _ ih => rw [ih, Derivations.yield, yield, List.append_assoc]

/-- A derivation in front of all that has been put together stands below all cells. -/
theorem Gathers.snoc {symbols all : List GrammarSymbol} {above : List Cell}
    {parts : Derivations symbols} {whole : Derivations all} (h : Gathers above parts whole)
    (cell : Cell) : Gathers (above ++ [cell]) parts (.cons cell.tree whole) := by
  induction h with
  | nil parts => exact .cons (.nil _)
  | cons _ ih => exact .cons ih

theorem Gathers.unique {symbols all : List GrammarSymbol} {above : List Cell}
    {parts : Derivations symbols} {one other : Derivations all} (h : Gathers above parts one)
    (h' : Gathers above parts other) : one = other := by
  induction h with
  | nil => cases h'; rfl
  | cons _ ih =>
    cases h' with
    | cons rest => exact ih rest

theorem yield_append (above below : List Cell) :
    yield (above ++ below) = yield below ++ yield above := by
  induction above with
  | nil => rw [List.nil_append, yield, List.append_nil]
  | cons cell above ih => rw [List.cons_append, yield, ih, yield, List.append_assoc]

/-- What the cells have read and what is still to be read stay the same together. -/
theorem Step.yield_eq {a b : List Cell} {s t : List Token} (h : Step a s b t) :
    yield b ++ t = yield a ++ s := by
  cases h with
  | shift read moves => rw [yield, Derivation.yield, List.append_assoc, List.singleton_append]
  | reduce asks splits gathers leads =>
    rw [splits, yield_append, yield, Derivation.yield, gathers.yield_eq, Derivations.yield,
      List.append_nil]

/-- A run moves tokens from the input to the cells and loses none. -/
theorem Run.yield_eq {a b : List Cell} {s t : List Token} (h : Run a s b t) :
    yield b ++ t = yield a ++ s := by
  induction h with
  | refl => rfl
  | head step _ ih => exact ih.trans step.yield_eq

theorem Linked.drop {above below : List Cell} (h : Linked (above ++ below)) : Linked below := by
  induction above with
  | nil => exact h
  | cons cell above ih =>
    cases h with
    | cons rest _ => exact ih rest

/-- A step goes where the table leads, so cells stay linked. -/
theorem Step.linked {a b : List Cell} {s t : List Token} (h : Step a s b t) (ha : Linked a) :
    Linked b := by
  cases h with
  | shift read moves => exact .cons ha (Table.next_terminal.2 moves)
  | reduce asks splits gathers leads =>
    rw [splits] at ha
    exact .cons ha.drop (Table.next_phrase.2 leads)

theorem Run.linked {a b : List Cell} {s t : List Token} (h : Run a s b t) (ha : Linked a) :
    Linked b := by
  induction h with
  | refl => exact ha
  | head step _ ih => exact ih (step.linked ha)

/-- The last cells hold what has been read of a rule under way. -/
theorem Linked.gather {cells : List Cell} (h : Linked cells) {rule : Rule} {read : Nat}
    (hway : Table.underWay (top cells) rule read = true) :
    ∀ {symbols : List GrammarSymbol} (parts : Derivations symbols),
      rule.rhs.drop read = symbols → ∃ (above below : List Cell) (whole : Derivations rule.rhs),
        cells = above ++ below ∧ Gathers above parts whole ∧
          Table.underWay (top below) rule 0 = true := by
  induction read generalizing cells with
  | zero =>
    intro symbols parts hsymbols
    rw [List.drop_zero] at hsymbols
    subst hsymbols
    exact ⟨[], cells, parts, rfl, .nil parts, hway⟩
  | succ read ih =>
    intro symbols parts hsymbols
    cases h with
    | nil =>
      -- in the first row no rule has been begun, so there is nothing to gather
      have hnone : Table.begun[0]?.getD [] = [] := by decide
      have hentry := (Table.mem_begun_of_underWay hway).1
      rw [top, hnone] at hentry
      exact absurd hentry List.not_mem_nil
    | @cons cell below rest edge =>
      obtain ⟨hsymbol, hbelow⟩ := Table.underWay_of_next edge hway
      have hdrop : rule.rhs.drop read = cell.symbol :: symbols := by
        obtain ⟨hlt, hget⟩ := List.getElem?_eq_some_iff.1 hsymbol
        rw [List.drop_eq_getElem_cons hlt, hget, hsymbols]
      obtain ⟨above, last, whole, hsplit, hgathers, hlast⟩ :=
        ih rest hbelow (.cons cell.tree parts) hdrop
      exact ⟨cell :: above, last, whole, congrArg (cell :: ·) hsplit, .cons hgathers, hlast⟩

/-- A rule that the table asks for can be applied. -/
theorem Linked.reduces {cells : List Cell} (h : Linked cells) {t : Terminal} {rule : Rule}
    (asks : Table.action? (top cells) t = some (.reduce rule)) :
    ∃ (above below : List Cell) (whole : Derivations rule.rhs) (next : State),
      cells = above ++ below ∧ Gathers above .nil whole ∧
        Table.goto? (top below) rule.lhs = some next := by
  obtain ⟨hway, hrule⟩ := Table.underWay_of_reduce asks
  obtain ⟨above, below, whole, hsplit, hgathers, hbelow⟩ := h.gather hway .nil List.drop_length
  obtain ⟨next, hnext⟩ := Table.goto_of_underWay hbelow hrule
  exact ⟨above, below, whole, next, hsplit, hgathers, hnext⟩

/-- There is at most one step. -/
theorem Step.unique {a b c : List Cell} {s t u : List Token} (h : Step a s b t)
    (h' : Step a s c u) : b = c ∧ t = u := by
  cases h with
  | shift read moves =>
    cases h' with
    | shift read' moves' =>
      obtain rfl := Option.some.inj (read.symm.trans read')
      have hnext := Option.some.inj (moves.symm.trans moves')
      injection hnext with hnext
      exact ⟨by rw [hnext], rfl⟩
    | reduce asks _ _ _ =>
      rw [nextTerminal_cons read, moves] at asks
      cases asks
  | reduce asks splits gathers leads =>
    cases h' with
    | shift read moves =>
      rw [nextTerminal_cons read, moves] at asks
      cases asks
    | reduce asks' splits' gathers' leads' =>
      have hrule := Option.some.inj (asks.symm.trans asks')
      injection hrule with hrule
      subst hrule
      -- as many cells as the rule has parts, hence the same cells and the same trees
      have hlength := gathers.length_eq.trans gathers'.length_eq.symm
      obtain ⟨rfl, rfl⟩ := List.append_inj (splits.symm.trans splits') hlength
      obtain rfl := gathers.unique gathers'
      obtain rfl := Option.some.inj (leads.symm.trans leads')
      exact ⟨rfl, rfl⟩

/-- A run that ends where there is no further step goes through every run from its start. -/
theorem Run.resume {a b c : List Cell} {s t u : List Token} (h : Run a s b t) (h' : Run a s c u)
    (hc : ∀ d v, ¬ Step c u d v) : Run b t c u := by
  induction h with
  | refl => exact h'
  | head step _ ih =>
    cases h' with
    | refl => exact absurd step (hc _ _)
    | head step' rest =>
      obtain ⟨rfl, rfl⟩ := step.unique step'
      exact ih rest

abbrev whole (d : Derivation (.phrase .unit)) : List Cell := [⟨3, .phrase .unit, d⟩]

/-- Nothing can be done with a whole unit. -/
theorem not_step_whole {d : Derivation (.phrase .unit)} (after : List Cell) (rest : List Token) :
    ¬ Step (whole d) [] after rest := by
  intro h
  cases h with
  | reduce asks _ _ _ =>
    have haccept : Table.action? (top (whole d)) (nextTerminal []) = some .accept :=
      Table.accept_iff.2 ⟨rfl, rfl⟩
    rw [haccept] at asks
    cases asks

/-- Cells in the accepting state are a whole unit. -/
theorem Linked.eq_whole {cells : List Cell} (h : Linked cells) (htop : top cells = 3) :
    ∃ d, cells = whole d := by
  cases h with
  | nil => cases htop
  | @cons cell below rest edge =>
    obtain ⟨state, symbol, tree⟩ := cell
    subst htop
    obtain ⟨hbelow, rfl⟩ := Table.eq_unit_of_next edge
    cases rest with
    | nil => exact ⟨tree, rfl⟩
    | cons _ edge' =>
      rw [top] at hbelow
      rw [hbelow] at edge'
      exact absurd edge' Table.next_ne_zero

/-- Where the input may end as a whole unit, no token can follow: before a token the table asks for
the same reductions or for nothing. -/
theorem Run.stuck_of_whole {cells after : List Cell} {tokens nothing : List Token}
    (h : Run cells tokens after nothing) (htokens : tokens = [])
    (hafter : ∃ d, after = whole d) {token : Token} {t : Terminal}
    (read : token.terminal? = some t) (ht : t ≠ .endOfInput) {rest final : List Token}
    {last : List Cell} (h' : Run cells (token :: rest) last final) : final = token :: rest := by
  have hnext := nextTerminal_cons read rest
  induction h with
  | refl cells =>
    -- a whole document has an action at the end of the input only
    obtain ⟨d, rfl⟩ := hafter
    have haccept : Table.action? (top (whole d)) .endOfInput = some .accept :=
      Table.accept_iff.2 ⟨rfl, rfl⟩
    have hnone (action : Action) : Table.action? (top (whole d)) t ≠ some action := by
      intro h
      obtain ⟨rfl, rule, hrule⟩ := Table.reduce_of_end haccept ht h
      cases hrule
    cases h' with
    | refl => rfl
    | head step _ =>
      cases step with
      | shift read' moves =>
        obtain rfl := Option.some.inj (read.symm.trans read')
        exact absurd moves (hnone _)
      | reduce asks _ _ _ =>
        rw [hnext] at asks
        exact absurd asks (hnone _)
  | @head cells mid after tokens others nothing step run ih =>
    subst htokens
    cases step with
    | reduce asks splits gathers leads =>
      cases h' with
      | refl => rfl
      | head step' rest' =>
        cases step' with
        | shift read' moves =>
          obtain rfl := Option.some.inj (read.symm.trans read')
          obtain ⟨hsame, _⟩ := Table.reduce_of_end asks ht moves
          cases hsame
        | reduce asks' splits' gathers' leads' =>
          rw [hnext] at asks'
          -- end and token ask for the same rebuilding, so both runs go on from the same cells
          obtain ⟨hsame, _⟩ := Table.reduce_of_end asks ht asks'
          injection hsame with hsame
          subst hsame
          rw [← hnext] at asks'
          obtain ⟨hmid, _⟩ := (Step.reduce asks' splits gathers leads).unique
            (Step.reduce asks' splits' gathers' leads')
          rw [← hmid] at rest'
          exact ih rfl hafter rest'

theorem nextTerminal_cons_eq (token : Token) (rest other : List Token) :
    nextTerminal (token :: rest) = nextTerminal (token :: other) := rfl

/-- A run over a token has moved on over it at some point, whatever comes after the token. -/
theorem Run.over {cells last : List Cell} {tokens final : List Token}
    (h : Run cells tokens last final) {token : Token} {rest : List Token}
    (htokens : tokens = token :: rest) (hfinal : final ≠ token :: rest) :
    ∃ after, (∀ other, Run cells (token :: other) after other) ∧ Run after rest last final := by
  induction h with
  | refl => exact absurd htokens hfinal
  | head step run ih =>
    subst htokens
    cases step with
    | shift read moves =>
      have hshift (other : List Token) : Run _ (token :: other) _ other :=
        .single (.shift read moves)
      exact ⟨_, hshift, run⟩
    | reduce asks splits gathers leads =>
      obtain ⟨after, hafter, hrun⟩ := ih rfl hfinal
      refine ⟨after, fun other => ?_, hrun⟩
      rw [nextTerminal_cons_eq token rest other] at asks
      exact .head (.reduce asks splits gathers leads) (hafter other)

theorem terminal_ne_endOfInput {token : Token} {t : Terminal} (read : token.terminal? = some t) :
    t ≠ .endOfInput := by
  unfold Token.terminal? TokenKind.terminal? at read
  split at read <;> cases read <;> decide

/-- No unit begins with a whole unit, and no tokens are a unit in two ways. -/
theorem Run.whole_unique {cells : List Cell} {front back : List Token}
    {d e : Derivation (.phrase .unit)} (h : Run cells front (whole d) [])
    (h' : Run cells (front ++ back) (whole e) []) : back = [] ∧ d = e := by
  induction front generalizing cells with
  | nil =>
    cases back with
    | nil =>
      have hrest := h.resume h' not_step_whole
      cases hrest with
      | refl => exact ⟨rfl, rfl⟩
      | head step _ => exact absurd step (not_step_whole _ _)
    | cons token back =>
      have hyield : e.yield = yield cells ++ (token :: back) := by
        have h := h'.yield_eq
        rwa [List.append_nil] at h
      have hmem : token ∈ e.yield := by
        rw [hyield]
        exact List.mem_append_right _ List.mem_cons_self
      obtain ⟨t, read⟩ := Option.isSome_iff_exists.1 (e.readable_of_mem hmem)
      -- what would be complete without the token cannot take it
      have hstuck := h.stuck_of_whole rfl ⟨d, rfl⟩ read (terminal_ne_endOfInput read) h'
      cases hstuck
  | cons token front ih =>
    obtain ⟨after, hover, hrun⟩ := h.over rfl (List.cons_ne_nil _ _).symm
    exact ih hrun ((hover (front ++ back)).resume h' not_step_whole)

end Cells

mutual

/-- The machine finds a derivation in its tokens, from every state that leads on over its symbol and
before every token that can stand behind it. -/
theorem Derivation.run {symbol : GrammarSymbol} (d : Derivation symbol) {cells : List Cell}
    {rest : List Token} {next : State}
    (hnext : Table.next? (Cells.top cells) symbol = some next)
    (hrest : symbol.Follows (nextTerminal rest)) :
    Cells.Run cells (d.yield ++ rest) (⟨next, symbol, d⟩ :: cells) rest := by
  cases d with
  | leaf token read => exact .single (.shift read (Table.next_terminal.1 hnext))
  | node rule builds parts =>
    subst builds
    have hgoto := Table.next_phrase.1 hnext
    have hrule : rule ≠ .start := by
      rintro rfl
      rw [Rule.lhs, Table.coherent.start _ (Table.mem_range_of_goto hgoto)] at hgoto
      cases hgoto
    obtain ⟨above, hrun, hgathers, hway⟩ :=
      parts.run List.drop_zero (Nat.zero_add _) (Table.underWay_of_goto hgoto) hrest
    have hasks := Table.reduce_of_underWay hrule hway hrest
    exact hrun.trans (.single (.reduce hasks rfl hgathers hgoto))

/-- The machine finds what is missing of a rule under way. -/
theorem Derivations.run {symbols : List GrammarSymbol} (ds : Derivations symbols)
    {cells : List Cell} {rest : List Token} {rule : Rule} {read : Nat}
    (hsymbols : rule.rhs.drop read = symbols)
    (hread : read + symbols.length = rule.rhs.length)
    (hway : Table.underWay (Cells.top cells) rule read = true)
    (hrest : nextTerminal rest ∈ rule.lhs.follow) :
    ∃ above, Cells.Run cells (ds.yield ++ rest) (above ++ cells) rest ∧
      Cells.Gathers above .nil ds ∧
        Table.underWay (Cells.top (above ++ cells)) rule rule.rhs.length = true := by
  cases ds with
  | nil => exact ⟨[], .refl _ _, .nil _, hread ▸ hway⟩
  | @cons symbol symbols first others =>
    have hlt : read < rule.rhs.length := by
      rw [← hread, List.length_cons]
      omega
    rw [List.drop_eq_getElem_cons hlt] at hsymbols
    obtain ⟨hsymbol, hsymbols⟩ := List.cons.inj hsymbols
    have hget : rule.rhs[read]? = some symbol := by
      rw [List.getElem?_eq_getElem hlt, hsymbol]
    -- the rule is under way in the top row, so its next symbol leads on
    obtain ⟨next, hnext, hway'⟩ := Table.next_of_underWay hway hget
    have hfollows : symbol.Follows (nextTerminal (others.yield ++ rest)) := by
      apply Rule.follows_of_rhs hget
      rw [hsymbols]
      exact others.nextTerminal_append_mem hrest
    have hfirst := first.run hnext hfollows
    rw [List.length_cons] at hread
    have hway₁ :
        Table.underWay (Cells.top (⟨next, symbol, first⟩ :: cells)) rule (read + 1) = true := hway'
    obtain ⟨above, hrun, hgathers, hcomplete⟩ := others.run hsymbols (by omega) hway₁ hrest
    have hassoc : above ++ ⟨next, symbol, first⟩ :: cells =
        (above ++ [⟨next, symbol, first⟩]) ++ cells := by
      rw [List.append_assoc, List.singleton_append]
    rw [hassoc] at hrun hcomplete
    refine ⟨above ++ [⟨next, symbol, first⟩], ?_, hgathers.snoc _, hcomplete⟩
    rw [Derivations.yield, List.append_assoc]
    exact hfirst.trans hrun

end

end PageTemplate
