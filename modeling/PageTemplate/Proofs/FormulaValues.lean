import Mathlib
import PageTemplate.Proofs.FormulaTrees
import PageTemplate.Proofs.Steps

namespace PageTemplate

def EvalError.unplaced : EvalError → EvalError
  | .undefinedVariable name _ => .undefinedVariable name .nowhere
  | .unknownFunction name _ => .unknownFunction name .nowhere
  | .operandTypes op left right _ => .operandTypes op left right .nowhere
  | .operandType op operand _ => .operandType op operand .nowhere
  | .conditionType found _ => .conditionType found .nowhere
  | .notIterable found _ => .notIterable found .nowhere
  | .divisionByZero _ => .divisionByZero .nowhere
  | .integerOverflow _ => .integerOverflow .nowhere
  | .noValue _ => .noValue .nowhere
  | e => e

/-- An outcome in which a place matters only as the place of an error. -/
def Movable {α : Type} (outcome : Position → Except EvalError α) : Prop :=
  ∀ pos, (outcome pos).mapError EvalError.unplaced = outcome .nowhere

namespace Movable

variable {α β : Type}

/-- Where two outcomes follow each other, the place of an error is that of one of them. -/
theorem bind {outcome : Position → Except EvalError α} {next : α → Position → Except EvalError β}
    (h : Movable outcome) (hnext : ∀ a, Movable (next a)) :
    Movable fun pos => outcome pos >>= fun a => next a pos := by
  intro pos
  have hpos := h pos
  dsimp only
  rw [← hpos]
  cases outcome pos with
  | error e => rfl
  | ok a => exact hnext a pos

theorem map {outcome : Position → Except EvalError α} (h : Movable outcome) (f : α → β) :
    Movable fun pos => (outcome pos).map f := by
  intro pos
  have hpos := h pos
  dsimp only
  rw [← hpos]
  cases outcome pos <;> rfl

theorem ofInt (n : Int) : Movable (Value.ofInt n) := by
  intro pos
  unfold Value.ofInt
  split <;> rfl

theorem intOperands (op : String) (left right : Value) :
    Movable (Value.intOperands op left right) := by
  intro pos
  unfold Value.intOperands
  split <;> rfl

theorem boolOperands (op : String) (left right : Value) :
    Movable (Value.boolOperands op left right) := by
  intro pos
  unfold Value.boolOperands
  split <;> rfl

theorem equality (op : String) (left right : Value) : Movable (Value.equality op left right) := by
  intro pos
  unfold Value.equality
  split <;> rfl

theorem comparison (op : String) (left right : Value) :
    Movable (Value.comparison op left right) := by
  intro pos
  unfold Value.comparison
  split <;> rfl

/-- A division, where the divisor is not zero. -/
theorem ofDivision {divisor : Int} {outcome : Position → Except EvalError Value}
    (h : Movable outcome) : Movable fun pos =>
      if divisor = 0 then .error (.divisionByZero pos) else outcome pos := by
  intro pos
  dsimp only
  split
  · rfl
  · exact h pos

theorem add (left right : Value) : Movable (Value.add left right) := by
  intro pos
  unfold Value.add
  split
  · exact ofInt _ pos
  · rfl
  · rfl
  · rfl
  · rfl

theorem relate (op : String) (left right : Value) : Movable (Value.relate op left right) := by
  intro pos
  unfold Value.relate
  split
  · exact (equality _ left right).map _ pos
  · exact (equality _ left right).map _ pos
  · exact (comparison _ left right).map _ pos
  · exact (comparison _ left right).map _ pos
  · exact (comparison _ left right).map _ pos
  · exact (comparison _ left right).map _ pos
  · rfl

end Movable

theorem UnaryOperator.apply_movable (op : UnaryOperator) (operand : Value) :
    Movable (op.apply operand) := by
  intro pos
  cases op with
  | not =>
    change (Value.not operand pos).mapError _ = _
    cases operand <;> rfl
  | negate =>
    cases operand with
    | int n => exact Movable.ofInt (-n.toInt) pos
    | str | bool | container => rfl

/-- No operator looks at its place. -/
theorem BinaryOperator.apply_movable (op : BinaryOperator) (left right : Value) :
    Movable (op.apply left right) := by
  cases op with
  | or => exact (Movable.boolOperands "||" left right).map _
  | and => exact (Movable.boolOperands "&&" left right).map _
  | plus => exact Movable.add left right
  | minus => exact (Movable.intOperands "-" left right).bind fun _ => Movable.ofInt _
  | times => exact (Movable.intOperands "*" left right).bind fun _ => Movable.ofInt _
  | divide =>
    exact (Movable.intOperands "/" left right).bind fun _ => (Movable.ofInt _).ofDivision
  | remainder =>
    refine (Movable.intOperands "%" left right).bind fun _ => Movable.ofDivision ?_
    exact (Movable.ofInt _).bind fun _ => Movable.ofInt _
  | equal => exact Movable.relate "==" left right
  | notEqual => exact Movable.relate "!=" left right
  | less => exact Movable.relate "<" left right
  | greater => exact Movable.relate ">" left right
  | lessEqual => exact Movable.relate "<=" left right
  | greaterEqual => exact Movable.relate ">=" left right

/-- The evaluator finds an operator by its spelling. -/
theorem UnaryOperator.unary_spelling (op : UnaryOperator) : Value.unary op.spelling = op.apply := by
  cases op <;> rfl

theorem BinaryOperator.binary_spelling (op : BinaryOperator) :
    Value.binary op.spelling = op.apply := by
  cases op <;> rfl

/-- A step that leaves the session as it is, with an outcome that is known up to places. -/
def Eval.Yields {α : Type} (session : Session) (expected : Except EvalError α) (step : Eval α) :
    Prop :=
  ∃ outcome, step.run session = (outcome, session) ∧
    outcome.mapError EvalError.unplaced = expected

namespace Eval.Yields

variable {α β : Type} {session : Session}

theorem pure (a : α) : Yields session (.ok a) (Pure.pure a : Eval α) := ⟨.ok a, rfl, rfl⟩

theorem bind {expected : Except EvalError α} {step : Eval α} {next : α → Eval β}
    {later : α → Except EvalError β} (h : Yields session expected step)
    (hnext : ∀ a, Yields session (later a) (next a)) :
    Yields session (expected >>= later) (step >>= next) := by
  obtain ⟨outcome, hrun, rfl⟩ := h
  cases outcome with
  | error e =>
    refine ⟨.error e, ?_, rfl⟩
    rw [run_bind, hrun]
  | ok a =>
    obtain ⟨result, hresult, hlater⟩ := hnext a
    refine ⟨result, ?_, hlater⟩
    rw [run_bind, hrun]
    exact hresult

theorem map {expected : Except EvalError α} {step : Eval α} (h : Yields session expected step)
    (f : α → β) : Yields session (f <$> expected) (do return f (← step)) := by
  have hmap := h.bind fun a => pure (f a)
  cases expected <;> exact hmap

/-- An operation may stand anywhere. -/
theorem ofExcept {outcome : Position → Except EvalError α} (h : Movable outcome)
    (pos : Position) : Yields session (outcome .nowhere) (Eval.ofExcept (outcome pos)) := by
  rw [← h pos]
  cases outcome pos with
  | ok a => exact ⟨.ok a, rfl, rfl⟩
  | error e => exact ⟨.error e, rfl, rfl⟩

/-- A check that is never told to stop can be left out. -/
theorem checked (hgo : session.patience = none) {expected : Except EvalError α} {step : Eval α}
    (h : Yields session expected step) : Yields session expected (do checkInterrupt; step) := by
  have hcheck : Yields session (.ok ()) checkInterrupt := by
    exact ⟨.ok (), run_checkInterrupt_of_none hgo, rfl⟩
  exact hcheck.bind fun _ => h

theorem needValue {expected : Except EvalError Value} {step : Eval (Option Value)}
    (h : Yields session (some <$> expected) step) (pos : Position) :
    Yields session expected (Evaluation.needValue pos step) := by
  have hboth : Yields session
      ((some <$> expected) >>= fun result => result.elim (.error (.noValue .nowhere)) .ok)
      (Evaluation.needValue pos step) := by
    refine h.bind fun result => ?_
    cases result with
    | none => exact ⟨.error (.noValue pos), rfl, rfl⟩
    | some value => exact pure value
  cases expected <;> exact hboth

theorem toText {expected : Except EvalError Value} {step : Eval (Option Value)}
    (h : Yields session (some <$> expected) step) :
    Yields session (Value.text <$> expected) (Evaluation.toText step) := by
  have hboth : Yields session
      ((some <$> expected) >>= fun result => .ok (result.elim "" Value.text))
      (Evaluation.toText step) := by
    refine h.bind fun result => ?_
    cases result <;> exact pure _
  cases expected <;> exact hboth

end Eval.Yields

namespace Formula

open Eval (Yields)
open Evaluation (Includer evalNode needValue renderAll renderNodes)

variable {formula : Formula} {node : Node} {session : Session}

/-- Any tree of a formula is evaluated to the value of the formula. -/
theorem Stands.yields (world : World) (document : Document) (includer : Includer)
    (hgo : session.patience = none) (h : formula.Stands node) :
    Yields session (formula.value session.context)
      (needValue node.pos (evalNode world document includer node)) := by
  induction h with
  | number _ pos | bool _ pos | string _ pos =>
    rw [Node.leaf, evalNode]
    exact ((Yields.pure _).checked hgo).needValue pos
  | name parts pos =>
    rw [Node.leaf, evalNode]
    refine (Yields.checked hgo ?_).needValue pos
    rw [value]
    cases hfound : session.context.at? parts with
    | some value =>
      refine ⟨.ok (some value), ?_, rfl⟩
      rw [Eval.run_get_bind, hfound]
      rfl
    | none =>
      refine ⟨.error (.undefinedVariable (".".intercalate parts) pos), ?_, rfl⟩
      rw [Eval.run_get_bind, hfound]
      rfl
  | unary op opPos pos _ ih =>
    rw [Node.leaf, evalNode, value]
    refine (Yields.checked hgo ?_).needValue pos
    rw [map_bind, op.unary_spelling]
    exact ih.bind fun value => (Yields.ofExcept (op.apply_movable value) pos).map some
  | binary op opPos pos _ _ ihleft ihright =>
    rw [Node.leaf, evalNode, value]
    refine (Yields.checked hgo ?_).needValue pos
    rw [map_bind, op.binary_spelling]
    -- the right operand is not asked for where the left one has failed
    refine ihleft.bind fun lhs => ?_
    rw [map_bind]
    exact ihright.bind fun rhs => (Yields.ofExcept (op.apply_movable lhs rhs) pos).map some

/-- A print block of a formula is rendered as the text of its value. -/
theorem Stands.renders (world : World) (document : Document) (hgo : session.patience = none)
    (h : formula.Stands node) (pos : Position) :
    Yields session (Value.text <$> formula.value session.context)
      (renderAll world document [⟨.printBlock, [node], pos⟩]) := by
  have hblock : Yields session (some <$> (fun value => .str value.text) <$>
      formula.value session.context)
      (evalNode world document (Evaluation.inclusion world document)
        ⟨.printBlock, [node], pos⟩) := by
    rw [evalNode, ← comp_map]
    exact ((h.yields world document _ hgo).map _).checked hgo
  have hrest (text : String) : Yields session (.ok text) (do
      return text ++ (← renderNodes world document (Evaluation.inclusion world document) [])) := by
    rw [renderNodes]
    refine ⟨.ok (text ++ ""), rfl, ?_⟩
    rw [String.append_empty]
    rfl
  have htext := hblock.toText.bind hrest
  rw [renderAll, renderNodes]
  cases hvalue : formula.value session.context <;> rw [hvalue] at htext <;> exact htext

end Formula

open Evaluation in
/-- What source prints a formula. A formula that has a notation can be written; any source that
prints it is read, whatever the parentheses that it could do without and the white space in it; and
rendering that gives the text of the value of the formula. If it fails, it does so with the error of
the first part of the formula that has no value, where operands come before their operation and left
ones before right ones. -/
theorem formula_source_meaning {formula : Formula} (h : formula.Writable) :
    (∃ source, formula.IsSource source) ∧
      ∀ source, formula.IsSource source → ∃ nodes, Template.read source = .ok nodes ∧
        ∀ (world : World) (document : Document) (session : Session), session.patience = none →
          ∃ outcome, (renderAll world document nodes).run session = (outcome, session) ∧
            outcome.mapError EvalError.unplaced =
              (formula.value session.context).map Value.text ∧
            ∀ e, outcome = .error e → ∃ before failing after,
              formula.postorder = before ++ failing :: after ∧
                (∀ part ∈ before, ∃ value, part.value session.context = .ok value) ∧
                failing.value session.context = .error e.unplaced := by
  refine ⟨h.exists_source, fun source hsource => ?_⟩
  obtain ⟨node, pos, hread, hstands⟩ := hsource.read
  refine ⟨_, hread, fun world document session hgo => ?_⟩
  obtain ⟨outcome, hrun, houtcome⟩ := hstands.renders world document hgo pos
  refine ⟨outcome, hrun, houtcome, ?_⟩
  rintro e rfl
  refine Formula.first_failure ?_
  cases hvalue : formula.value session.context with
  | ok value =>
    rw [hvalue] at houtcome
    cases houtcome
  | error e' =>
    rw [hvalue] at houtcome
    cases houtcome
    rfl

/-- `x - 3 - -2 * x` -/
def twoDifferences : Formula :=
  .binary .minus (.binary .minus (.name ["x"]) (.number 3))
    (.binary .times (.unary .negate (.number 2)) (.name ["x"]))

theorem twoDifferences_isSource :
    twoDifferences.IsSource "\x7b\x7b: x - 3 - -\n2 * x \x7d\x7d" := by
  refine ⟨_, .binary 0 .minus (by decide)
    (.binary _ .minus (by decide) (.identifier _ "x") (.number _ 3))
    (.binary _ .times (by decide) (.unary _ .negate (.number _ 2)) (.identifier _ "x")), ?_⟩
  have hspace : Text.IsGap [' '] := List.forall_mem_singleton.2 (by decide)
  have hline : Text.IsGap ['\n'] := List.forall_mem_singleton.2 (by decide)
  have hname : (TokenKind.identifier "x").SpelledBy ['x'] :=
    ⟨by decide, ⟨'x', [], rfl, by decide, nofun⟩, by decide⟩
  have hthree : (TokenKind.number 3).SpelledBy ['3'] :=
    ⟨List.cons_ne_nil _ _, List.forall_mem_singleton.2 (by decide), by decide⟩
  have htwo : (TokenKind.number 2).SpelledBy ['2'] :=
    ⟨List.cons_ne_nil _ _, List.forall_mem_singleton.2 (by decide), by decide⟩
  have hminus : (TokenKind.operator .minus "-").SpelledBy ['-'] := ⟨by decide, by decide⟩
  have htimes : (TokenKind.operator .mult "*").SpelledBy ['*'] := ⟨by decide, by decide⟩
  refine ⟨[' '], _, hspace, .cons hname (by decide) hspace nofun <|
    .cons hminus (by decide) hspace nofun <| .cons hthree (by decide) hspace nofun <|
    .cons hminus (by decide) hspace nofun <| .cons hminus (by decide) hline nofun <|
    .cons htwo (by decide) hspace nofun <| .cons htimes (by decide) hspace nofun <|
    .last hname (by decide) hspace, by decide⟩

open Evaluation in
theorem twoDifferences_meaning :
    let session : Session := { context := .ofList [("x", .int 10)] }
    twoDifferences.Writable ∧ (∃ source, twoDifferences.IsSource source) ∧
      ∃ nodes, Template.read "\x7b\x7b: x - 3 - -\n2 * x \x7d\x7d" = .ok nodes ∧
        (renderAll {} { path := .ofText "p" } nodes).run session = (.ok "27", session) := by
  intro session
  have hname : (Formula.name ["x"]).Writable := ⟨⟨'x', [], rfl, by decide, nofun⟩, by decide⟩
  have hthree : 0 ≤ (3 : Int64).toInt := by decide
  have htwo : 0 ≤ (2 : Int64).toInt := by decide
  have hwritable : twoDifferences.Writable := ⟨⟨hname, hthree⟩, htwo, hname⟩
  have hvalue : (twoDifferences.value session.context).map Value.text = .ok "27" := by cbv
  obtain ⟨hexists, hmeaning⟩ := formula_source_meaning hwritable
  obtain ⟨nodes, hread, hrenders⟩ := hmeaning _ twoDifferences_isSource
  obtain ⟨outcome, hrun, houtcome, -⟩ := hrenders {} { path := .ofText "p" } session rfl
  rw [hvalue] at houtcome
  cases outcome with
  | error e => cases houtcome
  | ok text =>
    cases houtcome
    exact ⟨hwritable, hexists, nodes, hread, hrun⟩

end PageTemplate
