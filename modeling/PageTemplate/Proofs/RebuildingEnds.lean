import PageTemplate.Proofs.Calls

namespace PageTemplate

attribute [local irreducible] Table.action? Table.goto? Table.next? Table.underWay

inductive InSteps {α : Type} (step : α → α → Prop) : Nat → α → α → Prop
  | none (a : α) : InSteps step 0 a a
  | more {count : Nat} {a b c : α} : step a b → InSteps step count b c →
    InSteps step (count + 1) a c

namespace InSteps

variable {α : Type} {step : α → α → Prop} {count : Nat} {a b : α}

/-- Each step takes something off the weight. -/
theorem count_le (weight : α → Nat) (lowers : ∀ a b, step a b → weight b < weight a)
    (h : InSteps step count a b) : count ≤ weight a := by
  induction h with
  | none => exact Nat.zero_le _
  | more first _ ih => exact Nat.lt_of_le_of_lt ih (lowers _ _ first)

end InSteps

namespace Table

theorem weight_le (state : State) : weight state ≤ 12 := by
  have hsymbol (symbol : GrammarSymbol) : symbol.weight ≤ 12 := by
    cases symbol with
    | terminal => exact Nat.le_refl 12
    | phrase n => cases n <;> decide
  unfold weight
  split
  · exact hsymbol _
  · exact Nat.zero_le 12

/-- A stack weighs little more than it is high. -/
theorem stackWeight_le (states : List State) : stackWeight states ≤ 11 * states.length + 12 :=
  Nat.add_le_add_left (weight_le _) _

end Table

namespace Stack

variable {t : Terminal} {token : Token} {pos opened : Position} {frames next last : List Frame}
  {judged after : List State} {rule : Rule} {root : Node}

/-- A rebuilding step makes the stack lighter, be it higher than before. -/
theorem Rebuilds.lowers (h : Rebuilds t pos frames next) :
    Table.stackWeight (states next) < Table.stackWeight (states frames) := by
  obtain ⟨rule, asks, hreduce⟩ := h
  exact stackWeight_reduce asks hreduce

/-- Judging by states alone makes the same stacks lighter. -/
theorem Judges.lowers (h : Judges judged after) :
    Table.stackWeight after < Table.stackWeight judged := by
  obtain ⟨rule, state, asks, hlength, leads, rfl⟩ := h
  exact Table.stackWeight_reduce_lt asks hlength leads

/-- The symbols of the right-hand side leave the stack and the left-hand side comes in. -/
theorem length_reduce (h : reduce rule frames pos = .ok next) :
    next.length + rule.rhs.length = frames.length + 1 := by
  simp only [reduce] at h
  split at h
  · cases h
  · next hlength =>
    split at h
    · cases h
    · split at h <;> cases h
      rw [List.length_cons, List.length_drop]
      omega

/-- The weight of the stack bounds the number of steps. -/
theorem rebuilds_le {count : Nat} (h : InSteps (Rebuilds t pos) count frames last) :
    count ≤ Table.stackWeight (states frames) :=
  h.count_le (fun frames => Table.stackWeight (states frames)) fun _ _ step => step.lowers

/-- Feeding a token rebuilds until the token is read or does not belong there, if every step on the
way can be carried out. -/
theorem feed_ends (frames : List Frame) (t : Terminal) (token : Token)
    (h : Rebuildable t token.pos frames) :
    ∃ count last, InSteps (Rebuilds t token.pos) count frames last ∧
      ((∃ next, Table.action? (top last) t = some (.shift next) ∧
          feed frames t token = .ok (⟨next, .token token⟩ :: last)) ∨
        (Table.action? (top last) t = none ∨ Table.action? (top last) t = some .accept) ∧
          feed frames t token = .error ⟨.unexpectedToken token (top last), none⟩) := by
  fun_induction feed frames t token with
  | case1 frames next haction => exact ⟨0, frames, .none _, .inl ⟨next, haction, rfl⟩⟩
  | case2 frames rule haction result hreduce _ ih =>
    have hstep : Rebuilds t token.pos frames result := ⟨rule, haction, hreduce⟩
    -- what can be rebuilt from here on can be rebuilt after this step
    have hlater : Rebuildable t token.pos result :=
      fun mid hmid => h mid (.head hstep hmid)
    obtain ⟨count, last, hsteps, hend⟩ := ih hlater
    exact ⟨count + 1, last, .more hstep hsteps, hend⟩
  | case3 frames rule haction halt hreduce =>
    obtain ⟨result, hresult⟩ := h frames .refl rule haction
    rw [hreduce] at hresult
    cases hresult
  | case4 frames hshift hreduce =>
    refine ⟨0, frames, .none _, .inr ⟨?_, rfl⟩⟩
    rcases haction : Table.action? (top frames) t with _ | ⟨next⟩ | ⟨rule⟩ | _
    · exact .inl rfl
    · exact absurd haction (hshift next)
    · exact absurd haction (hreduce rule)
    · exact .inr rfl

/-- Judging by the states comes to a verdict, if every step on the way can be carried out: the input
may end if the table accepts in the last state. -/
theorem accepts_ends (judged : List State) (h : Judgeable judged) :
    ∃ count last, InSteps Judges count judged last ∧ (∀ next, ¬ Judges last next) ∧
      (accepts judged = true ↔
        Table.action? (last.headD 0) .endOfInput = some .accept) := by
  fun_induction accepts judged with
  | case1 judged haction =>
    refine ⟨0, judged, .none _, fun next hnext => ?_, iff_of_true rfl haction⟩
    obtain ⟨rule, -, asks, -⟩ := hnext
    rw [haction] at asks
    cases asks
  | case2 judged rule haction hlength next hgoto _ ih =>
    have hstep : Judges judged (next :: judged.drop rule.rhs.length) :=
      ⟨rule, next, haction, hlength, hgoto, rfl⟩
    have hlater : Judgeable (next :: judged.drop rule.rhs.length) :=
      fun mid hmid => h mid (.head hstep hmid)
    obtain ⟨count, last, hsteps, hend⟩ := ih hlater
    exact ⟨count + 1, last, .more hstep hsteps, hend⟩
  | case3 judged rule haction hlength hgoto =>
    obtain ⟨state, hstate⟩ := (h judged .refl rule haction).2
    rw [hgoto] at hstate
    cases hstate
  | case4 judged rule haction hlength =>
    exact absurd (h judged .refl rule haction).1 hlength
  | case5 judged haccept hreduce =>
    refine ⟨0, judged, .none _, fun next hnext => ?_, iff_of_false Bool.false_ne_true haccept⟩
    obtain ⟨rule, -, asks, -⟩ := hnext
    exact hreduce rule asks

/-- A unit that has a tree is rebuilt until the table accepts it. -/
theorem complete_ends (h : complete frames opened = .ok root) :
    ∃ count state, InSteps (Rebuilds .endOfInput opened) count frames [⟨state, .node root⟩] ∧
      Table.action? state .endOfInput = some .accept := by
  fun_induction complete frames opened with
  | case1 frames rule haction result hreduce _ ih =>
    obtain ⟨count, state, hsteps, haccept⟩ := ih h
    exact ⟨count + 1, state, .more ⟨rule, haction, hreduce⟩ hsteps, haccept⟩
  | case2 => cases h
  | case3 state root' haction =>
    cases h
    exact ⟨0, state, .none _, haction⟩
  | case4 => cases h
  | case5 => cases h

end Stack

/-- Frames that a token has been fed to are those of linked cells, wherever it goes on. -/
theorem Framed.feed_ok {cells : List Cell} {frames after : List Frame} {token : Token}
    {t : Terminal} (h : Framed token.pos cells frames) (read : token.terminal? = some t)
    (hlinked : Cells.Linked cells) (hfeed : Stack.feed frames t token = .ok after) :
    ∃ now, Cells.Linked now ∧ ∀ ahead, Framed ahead now after := by
  rcases h.feed read hlinked with ⟨now, result, hresult, hframes, hrun, -⟩ | ⟨⟨state, herror⟩, -⟩
  · rw [hfeed] at hresult
    cases hresult
    exact ⟨now, (hrun []).linked hlinked, hframes⟩
  · rw [hfeed] at herror
    cases herror

/-- Every step of rebuilding and of judging takes something off the weight of the stack, while the
height changes by the length of the rule. So whatever a parser has been given, it reads the next
token, or refuses it, after few steps; after as few steps it is judged whether the unit may end
there, and a unit that may is rebuilt into its tree. -/
theorem rebuilding_ends :
    (∀ t pos frames next, Stack.Rebuilds t pos frames next →
      Table.stackWeight (Stack.states next) < Table.stackWeight (Stack.states frames) ∧
        ∃ rule, Table.action? (Stack.top frames) t = some (.reduce rule) ∧
          next.length + rule.rhs.length = frames.length + 1) ∧
    (∀ states next, Stack.Judges states next →
      Table.stackWeight next < Table.stackWeight states) ∧
    (∀ states, Table.stackWeight states ≤ 11 * states.length + 12) ∧
    ∀ calls token t, token.terminal? = some t →
      let frames := (Parser.idle.after calls).frames
      (∃ count last, InSteps (Stack.Rebuilds t token.pos) count frames last ∧
        count ≤ Table.stackWeight (Stack.states frames) ∧
          ((∃ next, Table.action? (Stack.top last) t = some (.shift next) ∧
              Stack.feed frames t token = .ok (⟨next, .token token⟩ :: last)) ∨
            (Table.action? (Stack.top last) t = none ∨
                Table.action? (Stack.top last) t = some .accept) ∧
              Stack.feed frames t token =
                .error ⟨.unexpectedToken token (Stack.top last), none⟩)) ∧
      ∀ read, Stack.feed frames t token = .ok read →
        (∃ count last, InSteps Stack.Judges count (Stack.states read) last ∧
          count ≤ Table.stackWeight (Stack.states read) ∧ (∀ next, ¬ Stack.Judges last next) ∧
            (Stack.accepts (Stack.states read) = true ↔
              Table.action? (last.headD 0) .endOfInput = some .accept)) ∧
        (Stack.accepts (Stack.states read) = true → ∀ opened, ∃ count state root,
          InSteps (Stack.Rebuilds .endOfInput opened) count read [⟨state, .node root⟩] ∧
            count ≤ Table.stackWeight (Stack.states read) ∧
              Table.action? state .endOfInput = some .accept ∧
                Stack.complete read opened = .ok root) := by
  refine ⟨fun t pos frames next hstep => ⟨hstep.lowers, ?_⟩,
    fun states next hstep => hstep.lowers, Table.stackWeight_le, fun calls token t read => ?_⟩
  · obtain ⟨rule, asks, hreduce⟩ := hstep
    exact ⟨rule, asks, Stack.length_reduce hreduce⟩
  intro frames
  obtain ⟨cells, hholds⟩ := Parser.idle_holds.after calls
  have hframed := hholds.framed token.pos
  refine ⟨?_, fun after hfeed => ?_⟩
  · obtain ⟨count, last, hsteps, hend⟩ :=
      Stack.feed_ends frames t token (hframed.rebuildable hholds.linked)
    exact ⟨count, last, hsteps, Stack.rebuilds_le hsteps, hend⟩
  obtain ⟨now, hlinked, hnow⟩ := hframed.feed_ok read hholds.linked hfeed
  have hstates : Stack.states after = now.map Cell.state := (hnow token.pos).states_eq
  refine ⟨?_, fun haccepts opened => ?_⟩
  · obtain ⟨count, last, hsteps, hlast, hverdict⟩ :=
      Stack.accepts_ends _ (hstates ▸ hlinked.judgeable)
    exact ⟨count, last, hsteps, hsteps.count_le _ fun _ _ step => step.lowers, hlast, hverdict⟩
  · -- the judgement on the states is carried out by the frames
    obtain ⟨d, hwhole⟩ := Cells.run_of_accepts hlinked (hstates ▸ haccepts)
    obtain ⟨root, hroot, -⟩ := Framed.complete hwhole rfl rfl (hnow opened)
    obtain ⟨count, state, hsteps, haccept⟩ := Stack.complete_ends hroot
    exact ⟨count, state, root, hsteps, Stack.rebuilds_le hsteps, haccept, hroot⟩

end PageTemplate
