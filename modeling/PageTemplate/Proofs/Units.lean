import Mathlib.Data.List.Forall2
import PageTemplate.Proofs.Frames

namespace PageTemplate

attribute [local irreducible] Table.action? Table.goto? Table.next? Table.underWay

/-- Only phrases without tokens are placed by what stands behind them, and no rule ends in one. -/
theorem Rule.last_not_nullable : ∀ rule ∈ all, ∀ symbol ∈ rule.rhs.getLast?,
    symbol.nullable = false := by
  decide +kernel

mutual

theorem Derivation.entry_eq {symbol : GrammarSymbol} (d : Derivation symbol)
    (h : symbol.nullable = false) (ahead other : Position) : d.entry ahead = d.entry other := by
  cases d with
  | leaf token read => rfl
  | @node n rule builds parts =>
    have hne : rule.rhs ≠ [] := by
      intro hnil
      have hnull := Rule.nullable_of_rhs rule rule.mem_all (by rw [hnil]; rfl)
      rw [builds] at hnull
      exact absurd (hnull.symm.trans h) (by decide)
    have hparts := parts.entries_eq (Rule.last_not_nullable rule rule.mem_all) ahead other
    obtain ⟨entries, hentries, hfit⟩ := parts.entries_fit other
    -- a node stands at its first entry, so what lies ahead matters to a rule without parts only
    have hcons : ∃ first rest, entries = first :: rest := by
      cases hrhs : rule.rhs with
      | nil => exact absurd hrhs hne
      | cons symbol symbols =>
        rw [hrhs] at hfit
        obtain ⟨first, rest, heq, _⟩ := hfit
        exact ⟨first, rest, heq⟩
    obtain ⟨first, rest, rfl⟩ := hcons
    rw [Derivation.entry, Derivation.entry, hparts, hentries]
    rfl

theorem Derivations.entries_eq {symbols : List GrammarSymbol} (ds : Derivations symbols)
    (h : ∀ symbol ∈ symbols.getLast?, symbol.nullable = false) (ahead other : Position) :
    ds.entries ahead = ds.entries other := by
  cases ds with
  | nil => rfl
  | @cons symbol symbols first rest =>
    have hfirst := fun h => first.entry_eq h ahead other
    have hrest := fun h => rest.entries_eq h ahead other
    cases symbols with
    | nil =>
      cases rest
      simp only [Derivations.entries, Derivations.yield, placeOf, hfirst (h symbol rfl)]
    | cons next symbols =>
      rw [List.getLast?_cons_cons] at h
      have hyield : rest.yield ≠ [] := by
        intro hnil
        have hall := List.all_eq_true.1 (rest.nullable_of_yield hnil)
        have hlast := List.getLast?_eq_some_getLast (List.cons_ne_nil next symbols)
        have hnull := hall _ (List.getLast_mem (List.cons_ne_nil next symbols))
        exact absurd (hnull.symm.trans (h _ hlast)) (by decide)
      have hplace : placeOf ahead rest.yield = placeOf other rest.yield := by
        cases hrest : rest.yield with
        | nil => exact absurd hrest hyield
        | cons token tokens => rfl
      rw [Derivations.entries, Derivations.entries, hplace, hrest h]

end

namespace Parser

open Cells

/-- A parser that has reached cells over their tokens, without having come to a whole unit. -/
structure Holds (parser : Parser) (cells : List Cell) : Prop where
  framed : ∀ ahead, Framed ahead cells parser.frames
  reached : ∀ rest, Run [] (yield cells ++ rest) cells rest
  unfinished : ∀ d, ¬ Run cells [] (whole d) []

theorem idle_holds : idle.Holds [] := by
  refine ⟨fun ahead => .nil ahead, fun rest => .refl [] rest, ?_⟩
  intro d h
  have hyield : d.yield = [] := by
    have hyield := h.yield_eq
    rwa [List.append_nil] at hyield
  exact absurd (d.nullable_of_yield hyield) (by decide)

namespace Holds

variable {parser : Parser} {cells : List Cell}

theorem linked (h : parser.Holds cells) : Linked cells := (h.reached []).linked .nil

theorem isIdle_iff (h : parser.Holds cells) : parser.isIdle = true ↔ cells = [] := by
  have hframed := h.framed ⟨0, 0⟩
  rw [isIdle, List.isEmpty_iff]
  constructor
  · intro hnil
    rw [hnil] at hframed
    cases hframed
    rfl
  · intro hnil
    rw [hnil] at hframed
    generalize parser.frames = frames at hframed
    cases hframed
    rfl

end Holds

/-- The table has something to do at the end of the input wherever a whole unit can be come to. -/
theorem run_asks {cells : List Cell} {d : Derivation (.phrase .unit)}
    (h : Run cells [] (whole d) []) :
    ∃ action, Table.action? (top cells) .endOfInput = some action := by
  cases h with
  | refl => exact ⟨.accept, Table.accept_iff.2 ⟨rfl, rfl⟩⟩
  | head step _ =>
    cases step with
    | reduce asks _ _ _ => exact ⟨_, asks⟩

/-- Except for text between units, a push feeds the token to the frames and looks for the end of the
unit. -/
theorem push_feed {parser : Parser} {token : Token} {t : Terminal}
    (read : token.terminal? = some t) (hunit : parser.isIdle = true → t ≠ .text) :
    ∃ opened, opened = (if parser.isIdle then token.pos else parser.opened) ∧
      parser.push token = match Stack.feed parser.frames t token with
      | .error halt => (.error halt.error, halted opened halt.left)
      | .ok frames =>
        if t = .blockClose && Stack.accepts (Stack.states frames) then
          match Stack.complete frames opened with
          | .ok root => (.ok (some root), idle)
          | .error halt => (.error halt.error, halted opened halt.left)
        else (.ok none, ⟨frames, opened⟩) := by
  refine ⟨if parser.isIdle then token.pos else parser.opened, rfl, ?_⟩
  unfold push
  rw [read]
  simp only
  split
  · next content hkind hidle =>
    have ht : t = .text := by
      rw [Token.terminal?, hkind] at read
      exact (Option.some.inj read).symm
    exact absurd ht (hunit hidle)
  · rfl

namespace Holds

variable {parser : Parser} {cells : List Cell} {token : Token} {t : Terminal}

/-- A push moves the parser on over the token, completes the unit with it, or fails where the
machine never gets over the token. -/
theorem push (h : parser.Holds cells) (read : token.terminal? = some t)
    (hunit : cells = [] → t ≠ .text) :
    (∃ after next, parser.push token = (.ok none, next) ∧ next.Holds after ∧ after ≠ [] ∧
      ∀ rest, Run cells (token :: rest) after rest) ∨
    (∃ after d root, parser.push token = (.ok (some root), idle) ∧ Run after [] (whole d) [] ∧
      (∀ rest, Run cells (token :: rest) after rest) ∧ ∀ ahead, d.entry ahead = .ok (.node root)) ∨
    ∃ state, parser.push token = (.error (.unexpectedToken token state), idle) ∧
      ∀ rest last final, Run cells (token :: rest) last final → final = token :: rest := by
  have hidle : parser.isIdle = true → t ≠ .text := fun hidle => hunit (h.isIdle_iff.1 hidle)
  obtain ⟨opened, -, hpush⟩ := push_feed read hidle
  rcases (h.framed token.pos).feed read h.linked with
    ⟨after, frames, hfeed, hframed, hrun, state, hshift⟩ | ⟨⟨state, hfeed⟩, hstuck⟩
  · rw [hfeed] at hpush
    have hlinked : Linked after := (hrun []).linked h.linked
    have hstates : Stack.states frames = after.map Cell.state := (hframed opened).states_eq
    by_cases haccepts : Stack.accepts (Stack.states frames) = true
    · obtain ⟨d, hwhole⟩ := run_of_accepts hlinked (hstates ▸ haccepts)
      obtain ⟨root, hcomplete, hentry⟩ := Framed.complete hwhole rfl rfl (hframed opened)
      -- only a closing delimiter can complete a unit
      have hclose : t = .blockClose := by
        obtain ⟨action, haction⟩ := run_asks hwhole
        exact Table.eq_blockClose_of_shift hshift haction
      have hok : parser.push token = (.ok (some root), idle) := by
        rw [hpush]
        simp [hclose, haccepts, hcomplete]
      refine .inr (.inl ⟨after, d, root, hok, hwhole, hrun, fun ahead => ?_⟩)
      rw [d.entry_eq rfl ahead opened, hentry]
    · have hok : parser.push token = (.ok none, ⟨frames, opened⟩) := by
        rw [hpush]
        simp [haccepts]
      have hyield : yield after = yield cells ++ [token] := by
        have hyield := (hrun []).yield_eq
        rwa [List.append_nil] at hyield
      have hne : after ≠ [] := by
        rintro rfl
        exact absurd hyield.symm (List.append_ne_nil_of_right_ne_nil _ (List.cons_ne_nil _ _))
      refine .inl ⟨after, _, hok, ⟨hframed, fun rest => ?_, fun d hwhole => ?_⟩, hne, hrun⟩
      · rw [hyield, List.append_assoc]
        exact (h.reached _).trans (hrun rest)
      · apply haccepts
        rw [hstates]
        exact accepts_of_run hwhole rfl ⟨d, rfl⟩
  · rw [hfeed] at hpush
    exact .inr (.inr ⟨state, hpush, hstuck⟩)

end Holds
end Parser
end PageTemplate
