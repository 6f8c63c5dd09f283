import Mathlib.Data.List.Induction
import PageTemplate.Proofs.Calls
import PageTemplate.Proofs.Readings

namespace PageTemplate

attribute [local irreducible] Table.action? Table.goto? Table.next? Table.underWay

namespace Parser

def answers (parser : Parser) : List Call → List (Except ParseError (Option Node))
  | [] => []
  | call :: calls => (parser.call call).1 :: (parser.call call).2.answers calls

variable {parser other next : Parser} {token : Token}

/-- An idle parser has no frames. -/
theorem eq_of_isIdle (h : parser.isIdle = true) : parser = ⟨[], parser.opened⟩ := by
  obtain ⟨frames, opened⟩ := parser
  obtain rfl : frames = [] := List.isEmpty_iff.1 h
  rfl

/-- A push to an idle parser forgets where earlier units began, or leaves it idle. -/
theorem push_of_isIdle (h : parser.isIdle = true) (hother : other.isIdle = true) (token : Token) :
    parser.push token = other.push token ∨
      ∃ result, parser.push token = (.ok result, parser) ∧
        other.push token = (.ok result, other) := by
  rw [eq_of_isIdle h, eq_of_isIdle hother]
  unfold push
  cases token.terminal? with
  | none => exact .inr ⟨none, rfl, rfl⟩
  | some terminal =>
    cases token.kind with
    | text content => exact .inr ⟨_, rfl, rfl⟩
    | _ => exact .inl rfl

/-- Idle parsers give the same answers. They stay the same or are idle again. -/
theorem call_of_isIdle (h : parser.isIdle = true) (hother : other.isIdle = true) (call : Call) :
    (parser.call call).1 = (other.call call).1 ∧
      ((parser.call call).2 = (other.call call).2 ∨
        (parser.call call).2.isIdle = true ∧ (other.call call).2.isIdle = true) := by
  cases call with
  | push token =>
    rw [call, call]
    rcases push_of_isIdle h hother token with heq | ⟨result, heq, heq'⟩
    · rw [heq]
      exact ⟨rfl, .inl rfl⟩
    · rw [heq, heq']
      exact ⟨rfl, .inr ⟨h, hother⟩⟩
  | finish =>
    rw [call, call, finish, finish, if_pos h, if_pos hother]
    exact ⟨rfl, .inr ⟨h, hother⟩⟩

/-- Idle parsers cannot be told apart. -/
theorem answers_of_isIdle (h : parser.isIdle = true) (hother : other.isIdle = true)
    (calls : List Call) : parser.answers calls = other.answers calls := by
  induction calls generalizing parser other with
  | nil => rfl
  | cons call calls ih =>
    obtain ⟨hanswer, hnext⟩ := call_of_isIdle h hother call
    rw [answers, answers, hanswer]
    rcases hnext with hsame | ⟨hidle, hidle'⟩
    · rw [hsame]
    · rw [ih hidle hidle']

/-- What is read depends on the answers alone. -/
theorem readAll_of_answers (h : ∀ calls, parser.answers calls = other.answers calls)
    (tokens : List Token) : parser.readAll tokens = other.readAll tokens := by
  induction tokens generalizing parser other with
  | nil =>
    have hfinish := (List.cons.inj (h [.finish])).1
    rw [call, call] at hfinish
    rw [readAll, readAll]
    generalize parser.finish.1 = result at hfinish ⊢
    generalize other.finish.1 = result' at hfinish ⊢
    cases result <;> cases result' <;> cases hfinish <;> rfl
  | cons token tokens ih =>
    have hpush := (List.cons.inj (h [.push token])).1
    -- the answers of both to the calls that follow agree as well
    have hrest : (parser.push token).2.readAll tokens = (other.push token).2.readAll tokens :=
      ih fun calls => (List.cons.inj (h (.push token :: calls))).2
    rw [call, call] at hpush
    rw [readAll, readAll]
    rcases hresult : parser.push token with ⟨result, next⟩
    rcases hresult' : other.push token with ⟨result', next'⟩
    rw [hresult, hresult'] at hpush hrest
    obtain rfl : result = result' := hpush
    cases result with
    | error e => rfl
    | ok root =>
      cases root with
      | none => exact hrest
      | some root => exact congrArg (Except.map (root :: ·)) hrest

/-- The end of the input leaves no unit open, whether it was welcome or not. -/
theorem finish_isIdle (parser : Parser) : parser.finish.2.isIdle = true := by
  rw [finish]
  split
  · next hidle => exact hidle
  · rfl

theorem finish_ok (h : parser.finish.1 = .ok ()) : parser.isIdle = true := by
  rw [finish] at h
  split at h
  · next hidle => exact hidle
  · cases h

/-- A piece is over with its last token, and a unit is given up with a token out of place. -/
theorem Holds.push_isIdle {cells : List Cell} (h : parser.Holds cells)
    (hpush : (∃ e, parser.push token = (.error e, next)) ∨
      ∃ root, parser.push token = (.ok (some root), next)) : next.isIdle = true := by
  rcases hpush with ⟨e, herror⟩ | ⟨root, hroot⟩
  · rw [(h.push_error herror).2]
    rfl
  · rcases h.push_outcome token with ⟨_, _, htoken, -⟩ | ⟨_, _, htoken, hafter⟩ | ⟨_, htoken⟩
    · rw [htoken] at hroot
      cases hroot
    · rw [htoken] at hroot
      cases hroot
      exact hafter.isIdle_iff.2 rfl
    · rw [htoken] at hroot
      cases hroot

/-- A call that fails leaves the parser idle. -/
theorem Holds.call_isIdle {cells : List Cell} (h : parser.Holds cells) {call : Call}
    {e : ParseError} (hcall : (parser.call call).1 = .error e) :
    (parser.call call).2.isIdle = true := by
  cases call with
  | push token => exact h.push_isIdle (.inl ⟨e, Prod.ext hcall rfl⟩)
  | finish => exact parser.finish_isIdle

/-- The unit under way is said to begin where the parser was given the first token of it. -/
theorem opened_push (h : (parser.push token).2.isIdle = false) :
    (parser.push token).2.opened = if parser.isIdle then token.pos else parser.opened := by
  cases hterminal : token.terminal? with
  | none =>
    rw [push_skip parser hterminal] at h ⊢
    rw [h]
    rfl
  | some t =>
    by_cases htext : parser.isIdle = true ∧ t = .text
    · obtain ⟨hidle, rfl⟩ := htext
      obtain ⟨content, -, htoken⟩ := push_text hidle hterminal
      rw [htoken, hidle] at h
      cases h
    · obtain ⟨opened, hopened, hpush⟩ :=
        push_feed hterminal fun hidle heq => htext ⟨hidle, heq⟩
      -- a halt that leaves frames leaves them to the unit that they are from
      have hhalted : ∀ left, (halted opened left).isIdle = false →
          (halted opened left).opened = opened := by
        intro left hleft
        cases left with
        | none => cases hleft
        | some frames => rfl
      rw [← hopened]
      rw [hpush] at h ⊢
      cases hfeed : Stack.feed parser.frames t token with
      | error halt =>
        simp only [hfeed] at h ⊢
        exact hhalted _ h
      | ok frames =>
        simp only [hfeed] at h ⊢
        split
        · next hclose =>
          simp only [hclose, if_true] at h
          cases hcomplete : Stack.complete frames opened with
          | error halt =>
            simp only [hcomplete] at h ⊢
            exact hhalted _ h
          | ok root =>
            simp only [hcomplete] at h
            cases h
        · rfl

theorem after_append (parser : Parser) (front back : List Call) :
    parser.after (front ++ back) = (parser.after front).after back :=
  List.foldl_append

/-- A token opens a unit that is still under way after calls: the parser was idle before it was
pushed, and has not been idle since. -/
def Opens (token : Token) (calls : List Call) : Prop :=
  ∃ before since, calls = before ++ .push token :: since ∧ (idle.after before).isIdle = true ∧
    ∀ front, front <+: since → (idle.after (before ++ .push token :: front)).isIdle = false

/-- A parser that is not idle is in a unit that some token has opened. -/
theorem exists_opens {calls : List Call} (h : (idle.after calls).isIdle = false) :
    ∃ token, Opens token calls ∧ (idle.after calls).opened = token.pos := by
  induction calls using List.reverseRecOn with
  | nil => cases h
  | append_singleton calls call ih =>
    have hlast : idle.after (calls ++ [call]) = ((idle.after calls).call call).2 :=
      after_append idle calls [call]
    cases call with
    | finish =>
      rw [hlast, Parser.call, finish_isIdle] at h
      cases h
    | push token =>
      rw [Parser.call] at hlast
      have hopened := opened_push (hlast ▸ h)
      rw [← hlast] at hopened
      cases hidle : (idle.after calls).isIdle with
      | true =>
        rw [hidle] at hopened
        refine ⟨token, ⟨calls, [], rfl, hidle, fun front hfront => ?_⟩, hopened⟩
        rw [List.prefix_nil.1 hfront]
        exact h
      | false =>
        -- the unit was under way already, and the call is one more inside it
        rw [hidle] at hopened
        obtain ⟨first, ⟨before, since, rfl, hbefore, hsince⟩, hfirst⟩ := ih hidle
        have hmore : before ++ .push first :: since ++ [.push token] =
            before ++ .push first :: (since ++ [.push token]) := List.append_assoc ..
        refine ⟨first, ⟨before, since ++ [.push token], hmore, hbefore, fun front hfront => ?_⟩,
          hopened.trans hfirst⟩
        rcases List.prefix_concat_iff.1 hfront with rfl | hless
        · rw [← hmore]
          exact h
        · exact hsince front hless

end Parser

/-- Behind complete trees everything is parsed as at the beginning. -/
theorem parse_append {front : List Token} {roots : List Node} (h : parse front = .ok roots)
    (back : List Token) : parse (front ++ back) = (parse back).map (roots ++ ·) := by
  rw [parse, Parser.readAll_eq] at h
  rcases hpush : Parser.idle.pushAll front with ⟨trees, outcome⟩
  rw [hpush] at h
  cases outcome with
  | error e => cases h
  | ok parser =>
    cases hfinish : parser.finish.1 with
    | error e =>
      simp only [hfinish] at h
      cases h
    | ok _ =>
      simp only [hfinish] at h
      cases h
      have hfresh : ∀ calls, parser.answers calls = Parser.idle.answers calls :=
        Parser.answers_of_isIdle (Parser.finish_ok hfinish) rfl
      rw [parse, Parser.readAll_append hpush, Parser.readAll_of_answers hfresh, parse]

/-- Whatever a parser has been given, it is idle after a push that fails or returns a tree and after
the end of the input, and an idle parser answers all further calls as a new one. So no call that has
failed is felt later on, an end inside a unit is reported where the unit was opened, and tokens that
can be read make no difference to those behind them. -/
theorem idle_parser_is_fresh :
    (∀ calls : List Parser.Call,
      let parser := Parser.idle.after calls
      (∀ token next, ((∃ e, parser.push token = (.error e, next)) ∨
          ∃ root, parser.push token = (.ok (some root), next)) → next.isIdle = true) ∧
        parser.finish.2.isIdle = true ∧
        (parser.isIdle = true → ∀ further, parser.answers further = Parser.idle.answers further) ∧
        (∀ call e, (parser.call call).1 = .error e →
          ∀ further, (parser.call call).2.answers further = Parser.idle.answers further) ∧
        (parser.isIdle = false → ∃ token, Parser.Opens token calls ∧
          parser.finish.1 = .error (.unexpectedEnd token.pos))) ∧
      ∀ front roots, parse front = .ok roots →
        ∀ back, parse (front ++ back) = (parse back).map (roots ++ ·) := by
  refine ⟨fun calls => ?_, fun front roots hparse back => parse_append hparse back⟩
  intro parser
  obtain ⟨cells, hholds⟩ := Parser.idle_holds.after calls
  refine ⟨fun token next hpush => hholds.push_isIdle hpush, parser.finish_isIdle,
    fun hidle further => Parser.answers_of_isIdle hidle rfl further,
    fun call e hcall further =>
      Parser.answers_of_isIdle (hholds.call_isIdle hcall) rfl further,
    fun hopen => ?_⟩
  obtain ⟨token, hopens, hopened⟩ := Parser.exists_opens hopen
  refine ⟨token, hopens, ?_⟩
  rw [Parser.finish, if_neg (Bool.eq_false_iff.1 hopen)]
  exact congrArg (fun pos => Except.error (ParseError.unexpectedEnd pos)) hopened

end PageTemplate
