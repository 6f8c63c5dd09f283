import PageTemplate.Proofs.Automaton

/-!
The parser runs the machine on derivations: its frames are the cells with the entries of their
derivations. So feeding a token fails only where the machine stops, and a complete unit is the one
that the machine accepts.
-/

namespace PageTemplate

attribute [local irreducible] Table.action? Table.goto? Table.next? Table.underWay

namespace Stack

variable {frames result : List Frame} {t : Terminal} {token : Token} {rule : Rule} {next : State}
  {opened : Position}

/-- Judging the end by states alone takes the steps that rebuilding would take. -/
theorem accepts_reduce {states : List State}
    (h : Table.action? (states.headD 0) .endOfInput = some (.reduce rule))
    (hlen : rule.rhs.length ≤ states.length)
    (hgoto : Table.goto? ((states.drop rule.rhs.length).headD 0) rule.lhs = some next) :
    accepts states = accepts (next :: states.drop rule.rhs.length) := by
  rw [accepts]
  split
  · next h' => rw [h] at h'; cases h'
  · next h' =>
    rw [h] at h'
    cases h'
    rw [dif_pos hlen]
    split
    · next h'' => rw [hgoto] at h''; cases h''; rfl
    · next h'' => rw [hgoto] at h''; cases h''
  · next _ hno => exact absurd h (hno rule)

theorem accepts_accept {states : List State}
    (h : Table.action? (states.headD 0) .endOfInput = some .accept) : accepts states = true := by
  rw [accepts]
  split
  · rfl
  · next h' => rw [h] at h'; cases h'
  · next hno _ => exact absurd h hno

theorem complete_accept {state : State} {root : Node}
    (h : Table.action? state .endOfInput = some .accept) :
    complete [⟨state, .node root⟩] opened = .ok root := by
  rw [complete]
  split
  · next h' => rw [top, h] at h'; cases h'
  · rfl
  · next hno => exact absurd h hno

/-- Completing a unit can begin with any rebuilding step that is due. -/
theorem complete_reduce (h : Table.action? (top frames) .endOfInput = some (.reduce rule))
    (hreduce : reduce rule frames opened = .ok result) :
    complete frames opened = complete result opened := by
  rw [complete]
  split
  · next h' =>
    rw [h] at h'
    cases h'
    split
    · next h'' => rw [hreduce] at h''; cases h''; rfl
    · next h'' => rw [hreduce] at h''; cases h''
  · next h' => rw [h] at h'; cases h'
  · next hno _ => exact absurd h (hno rule)

end Stack

/-- Frames that hold the entries of the cells' derivations, where `ahead` is the place of the next
token. -/
inductive Framed : Position → List Cell → List Frame → Prop
  | nil (ahead : Position) : Framed ahead [] []
  | cons {ahead : Position} {cell : Cell} {below : List Cell} {entry : Entry} {frames : List Frame}
    (holds : cell.tree.entry ahead = .ok entry)
    (rest : Framed (placeOf ahead cell.tree.yield) below frames) :
    Framed ahead (cell :: below) (⟨cell.state, entry⟩ :: frames)

namespace Framed

variable {ahead : Position} {cells : List Cell} {frames : List Frame}

theorem top_eq (h : Framed ahead cells frames) : Stack.top frames = Cells.top cells := by
  cases h <;> rfl

theorem states_eq (h : Framed ahead cells frames) :
    Stack.states frames = cells.map Cell.state := by
  induction h with
  | nil => rfl
  | cons _ _ ih => rw [Stack.states, List.map_cons, List.map_cons, ← ih, Stack.states]

/-- A token that has just been read has the same entry whatever comes next. -/
theorem shift {token : Token} {t : Terminal} (h : Framed token.pos cells frames)
    (read : token.terminal? = some t) (next : State) (ahead : Position) :
    Framed ahead (⟨next, .terminal t, .leaf token read⟩ :: cells)
      (⟨next, .token token⟩ :: frames) :=
  @Framed.cons ahead ⟨next, .terminal t, .leaf token read⟩ cells _ _ rfl h

/-- The frames above a rule can be cut off, and hold the entries of its parts. -/
theorem split {symbols all : List GrammarSymbol} {above : List Cell} {parts : Derivations symbols}
    {whole : Derivations all} (hgathers : Cells.Gathers above parts whole) {below : List Cell}
    {entries : List Entry} (hentries : parts.entries ahead = .ok entries) :
    ∀ {frames : List Frame}, Framed (placeOf ahead parts.yield) (above ++ below) frames →
      ∃ front back, frames = front ++ back ∧ front.length = above.length ∧
        whole.entries ahead = .ok (front.reverse.map Frame.entry ++ entries) ∧
          Framed (placeOf ahead whole.yield) below back := by
  induction hgathers generalizing entries with
  | nil parts =>
    intro frames h
    exact ⟨[], frames, rfl, rfl, hentries, h⟩
  | @cons symbols all cell above parts whole _ ih =>
    intro frames h
    cases h with
    | @cons _ _ _ entry frames holds rest =>
      -- the entry on top is that of the last part gathered so far
      have hcons : (Derivations.cons cell.tree parts).entries ahead = .ok (entry :: entries) := by
        rw [Derivations.entries, holds]
        simp only [bind, Except.bind, hentries]
        rfl
      rw [← placeOf_append] at rest
      obtain ⟨front, back, rfl, hlength, hwhole, hback⟩ := ih hcons rest
      refine ⟨⟨cell.state, entry⟩ :: front, back, rfl, congrArg (· + 1) hlength, ?_, hback⟩
      rw [hwhole, List.reverse_cons, List.map_append, List.append_assoc]
      rfl

/-- Rebuilding by a rule puts the derivations of its right-hand side together. -/
theorem reduce {above below : List Cell} {rule : Rule} {whole : Derivations rule.rhs}
    {next : State} (h : Framed ahead cells frames) (splits : cells = above ++ below)
    (gathers : Cells.Gathers above .nil whole)
    (leads : Table.goto? (Cells.top below) rule.lhs = some next) :
    ∃ result, Stack.reduce rule frames ahead = .ok result ∧
      Framed ahead (⟨next, .phrase rule.lhs, .node rule rfl whole⟩ :: below) result := by
  subst splits
  obtain ⟨front, back, rfl, hlength, hwhole, hback⟩ := split gathers rfl h
  have hcount : front.length = rule.rhs.length := hlength.trans gathers.length_eq
  rw [List.append_nil] at hwhole
  obtain ⟨entry, hentry, _⟩ := (Derivation.node rule rfl whole).entry_fits ahead
  have hbuild : rule.build (front.reverse.map Frame.entry) ahead = .ok entry := by
    rw [Derivation.entry, hwhole] at hentry
    exact hentry
  refine ⟨⟨next, entry⟩ :: back, ?_, .cons hentry hback⟩
  have hshort : ¬ (front ++ back).length < rule.rhs.length := by
    rw [List.length_append]
    omega
  rw [Stack.reduce, if_neg hshort, ← hcount, List.take_left, List.drop_left, hbuild]
  simp only [hback.top_eq, leads]

/-- Feeding a token takes the machine over it, or the token is out of place and the machine never
gets over it. -/
theorem feed {token : Token} {t : Terminal} (read : token.terminal? = some t)
    (hlinked : Cells.Linked cells) (h : Framed token.pos cells frames) :
    (∃ after result, Stack.feed frames t token = .ok result ∧
      (∀ ahead, Framed ahead after result) ∧ (∀ rest, Cells.Run cells (token :: rest) after rest) ∧
        ∃ state, Table.action? state t = some (.shift (Cells.top after))) ∨
    (∃ state, Stack.feed frames t token = .error ⟨.unexpectedToken token state, none⟩) ∧
      ∀ rest last final, Cells.Run cells (token :: rest) last final → final = token :: rest := by
  have hnext (rest : List Token) : nextTerminal (token :: rest) = t := nextTerminal_cons read rest
  fun_induction Stack.feed frames t token generalizing cells with
  | case1 frames next haction =>
    rw [h.top_eq] at haction
    have hrun (rest : List Token) : Cells.Run cells (token :: rest) _ rest :=
      .single (.shift read haction)
    exact .inl ⟨_, _, rfl, h.shift read next, hrun, _, haction⟩
  | case2 frames rule haction result hreduce _ ih =>
    rw [h.top_eq] at haction
    -- one rebuilding of the frames is one step of the cells
    obtain ⟨above, below, whole, next, splits, gathers, leads⟩ := hlinked.reduces haction
    obtain ⟨result', hresult', hframed⟩ := h.reduce splits gathers leads
    rw [hreduce] at hresult'
    cases hresult'
    have hstep (rest : List Token) : Cells.Step cells (token :: rest) _ (token :: rest) :=
      .reduce (by rw [hnext]; exact haction) splits gathers leads
    rcases ih ((hstep []).linked hlinked) hframed with
      ⟨after, last, hfeed, hafter, hrun, hshift⟩ | ⟨hfail, hstuck⟩
    · exact .inl ⟨after, last, hfeed, hafter, fun rest => .head (hstep rest) (hrun rest), hshift⟩
    · refine .inr ⟨hfail, fun rest last final hrun => ?_⟩
      cases hrun with
      | refl => rfl
      | head step run =>
        obtain ⟨rfl, rfl⟩ := step.unique (hstep rest)
        exact hstuck rest last final run
  | case3 frames rule haction e hreduce =>
    rw [h.top_eq] at haction
    -- linked cells can be rebuilt, so the frames could as well
    obtain ⟨above, below, whole, next, splits, gathers, leads⟩ := hlinked.reduces haction
    obtain ⟨result', hresult', _⟩ := h.reduce splits gathers leads
    rw [hreduce] at hresult'
    cases hresult'
  | case4 frames hshift hreduce =>
    rw [h.top_eq] at hshift hreduce
    refine .inr ⟨⟨_, rfl⟩, fun rest last final hrun => ?_⟩
    cases hrun with
    | refl => rfl
    | head step _ =>
      cases step with
      | shift read' moves =>
        obtain rfl := Option.some.inj (read.symm.trans read')
        exact (hshift _ moves).elim
      | reduce asks _ _ _ =>
        rw [hnext] at asks
        exact (hreduce _ asks).elim

/-- A whole unit is rebuilt into the tree of its derivation. -/
theorem complete {opened : Position} {after : List Cell} {tokens nothing : List Token}
    (h : Cells.Run cells tokens after nothing) (htokens : tokens = [])
    {d : Derivation (.phrase .unit)} (hafter : after = Cells.whole d)
    (hframed : Framed opened cells frames) :
    ∃ root, Stack.complete frames opened = .ok root ∧ d.entry opened = .ok (.node root) := by
  induction h generalizing frames with
  | refl cells =>
    subst hafter
    obtain ⟨entry, hentry, node, rfl, _⟩ := d.entry_fits opened
    cases hframed with
    | cons holds rest =>
      cases rest
      rw [hentry] at holds
      cases holds
      -- one cell, the whole of a document
      have haccept : Table.action? 3 .endOfInput = some .accept := Table.accept_iff.2 ⟨rfl, rfl⟩
      exact ⟨node, Stack.complete_accept haccept, hentry⟩
  | head step run ih =>
    subst htokens
    cases step with
    | reduce asks splits gathers leads =>
      obtain ⟨result, hresult, hresult'⟩ := hframed.reduce splits gathers leads
      obtain ⟨root, hroot, hentry⟩ := ih rfl hafter hresult'
      rw [← hframed.top_eq] at asks
      exact ⟨root, (Stack.complete_reduce asks hresult).trans hroot, hentry⟩

end Framed

namespace Cells

theorem headD_map (cells : List Cell) : (cells.map Cell.state).headD 0 = top cells := by
  cases cells <;> rfl

/-- The states below the right-hand side of a rule. -/
theorem Gathers.drop_map {rule : Rule} {above below : List Cell} {whole : Derivations rule.rhs}
    (h : Gathers above .nil whole) :
    ((above ++ below).map Cell.state).drop rule.rhs.length = below.map Cell.state ∧
      rule.rhs.length ≤ ((above ++ below).map Cell.state).length := by
  have hlength : above.length = rule.rhs.length := h.length_eq
  constructor
  · rw [List.map_append, ← hlength, ← List.length_map, List.drop_left]
  · rw [List.length_map, List.length_append]
    omega

/-- Judged by the states alone, the input may end where the machine comes to a whole unit. -/
theorem accepts_of_run {cells after : List Cell} {tokens nothing : List Token}
    (h : Run cells tokens after nothing) (htokens : tokens = [])
    (hafter : ∃ d, after = whole d) : Stack.accepts (cells.map Cell.state) = true := by
  induction h with
  | refl cells =>
    obtain ⟨d, rfl⟩ := hafter
    exact Stack.accepts_accept (Table.accept_iff.2 ⟨rfl, rfl⟩)
  | head step run ih =>
    subst htokens
    cases step with
    | reduce asks splits gathers leads =>
      subst splits
      obtain ⟨hdrop, hlen⟩ := gathers.drop_map
      rw [← headD_map] at asks leads
      rw [← hdrop] at leads
      rw [Stack.accepts_reduce asks hlen leads, hdrop]
      exact ih rfl hafter

/-- If the states say that the input may end, the machine comes to a whole unit. -/
theorem run_of_accepts {cells : List Cell} (hlinked : Linked cells)
    (h : Stack.accepts (cells.map Cell.state) = true) : ∃ d, Run cells [] (whole d) [] := by
  generalize hstates : cells.map Cell.state = states at h
  fun_induction Stack.accepts states generalizing cells with
  | case1 states haction =>
    subst hstates
    rw [headD_map] at haction
    obtain ⟨d, rfl⟩ := hlinked.eq_whole (Table.accept_iff.1 haction).1
    exact ⟨d, .refl _ _⟩
  | case2 states rule haction hlen next hgoto _ ih =>
    subst hstates
    rw [headD_map] at haction
    obtain ⟨above, below, whole, next', rfl, gathers, leads⟩ := hlinked.reduces haction
    have hdrop := (@Gathers.drop_map rule above below whole gathers).1
    rw [hdrop, headD_map, leads] at hgoto
    cases hgoto
    have step : Step (above ++ below) [] _ [] := .reduce haction rfl gathers leads
    obtain ⟨d, run⟩ := ih (step.linked hlinked) (by rw [hdrop]; rfl) h
    exact ⟨d, .head step run⟩
  | case3 => cases h
  | case4 => cases h
  | case5 => cases h

end Cells
end PageTemplate
