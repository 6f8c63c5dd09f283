import Mathlib
import PageTemplate.Proofs.Scopes

namespace PageTemplate
namespace Evaluation

/-- What a loop runs over, as its evaluation finds it first. A string literal is taken for a content
path as it is. -/
def loopInput (world : World) (document : Document) (includer : Includer) (pos : Position)
    (input : Node) : Eval (List Value) := do
  Eval.checkInterrupt
  match input.kind with
  | .stringLiteral path => loopItems world pos (.str path)
  | _ => loopItems world pos (← needValue input.pos (evalNode world document includer input))

/-- The includers that the evaluation of a document comes to use: its own, and that of a template
in which `remaining` more inclusions may be under way. -/
inductive Includes (world : World) (document : Document) : Includer → Prop
  | ofDocument : Includes world document (inclusion world document)
  | ofTemplate (remaining : Nat) :
    Includes world document (inclusionWithin world document remaining)

variable {world : World} {document : Document} {includer : Includer}

theorem Includes.steady (h : Includes world document includer) (hbuiltins : world.builtins.Steady)
    (key : String) (scope : Context) : Eval.Steady (includer key scope) := by
  cases h with
  | ofDocument => exact inclusion_steady hbuiltins key scope
  | ofTemplate remaining => exact inclusionWithin_steady hbuiltins remaining key scope

theorem evalNode_forLoop (var : String) (below : List Node) (namePos pos : Position)
    (input body : Node) :
    evalNode world document includer
        ⟨.forLoop, [⟨.identifier var, below, namePos⟩, input, body], pos⟩ = (do
      let items ← loopInput world document includer pos input
      let texts ← eachItem var (toText (evalNode world document includer body)) items
      return some (.str ("\n".intercalate texts))) := by
  rw [evalNode, loopInput, bind_assoc]
  refine bind_congr fun _ => ?_
  obtain ⟨kind, children, inputPos⟩ := input
  cases kind with
  | stringLiteral path => rfl
  | _ => exact (bind_assoc _ _ _).symm

theorem run_toText_snd (step : Eval (Option Value)) (session : Session) :
    ((toText step).run session).2 = (step.run session).2 := by
  rw [toText, Eval.run_bind]
  rcases step.run session with ⟨_ | _ | value, after⟩ <;> rfl

/-- The nodes after one that has been rendered go on from the session that it leaves. -/
theorem run_renderNodes_cons (node : Node) (later : List Node) (session : Session) :
    (renderNodes world document includer (node :: later)).run session =
      match (toText (evalNode world document includer node)).run session with
      | (.ok text, after) =>
        (((renderNodes world document includer later).run after).1.map (text ++ ·),
          ((renderNodes world document includer later).run after).2)
      | (.error e, after) => (.error e, after) := by
  rw [renderNodes, Eval.run_bind]
  rcases (toText (evalNode world document includer node)).run session with ⟨_ | text, after⟩
  · rfl
  · dsimp only
    rw [Eval.run_bind]
    rcases (renderNodes world document includer later).run after with ⟨_ | rest, last⟩ <;> rfl

end Evaluation

open Evaluation in
/-- Scopes are given back. An inclusion does nothing to the session but ask whether to go on, and so
does every call that asks for one; a loop leaves the session as it was when its items were known,
but for the same. That is so whether they fail or not, and if they are told to stop in the middle.
What comes later is rendered from that session. -/
theorem scopes_are_restored {world : World} (hprelude : world.builtins = .prelude)
    (document : Document) {includer : Includer} (hincluder : Includes world document includer) :
    (∀ key scope session, ∃ checks,
      ((includer key scope).run session).2 = session.waited checks) ∧
    (∀ name builtin, world.builtins.get? name = some builtin → ∀ args session, ∃ checks,
      ((builtin.run ⟨document, exported world, includer⟩ args).run session).2 =
        session.waited checks) ∧
    ∀ var below namePos input body pos session items computed,
      (loopInput world document includer pos input).run session = (.ok items, computed) →
        let loop : Node := ⟨.forLoop, [⟨.identifier var, below, namePos⟩, input, body], pos⟩
        ∃ checks,
          ((evalNode world document includer loop).run session).2 = computed.waited checks ∧
          ∀ later, (renderNodes world document includer (loop :: later)).run session =
            match ((toText (evalNode world document includer loop)).run session).1 with
            | .ok text =>
              (((renderNodes world document includer later).run
                  (computed.waited checks)).1.map (text ++ ·),
                ((renderNodes world document includer later).run (computed.waited checks)).2)
            | .error e => (.error e, computed.waited checks) := by
  have hbuiltins : world.builtins.Steady := hprelude ▸ Builtins.steady_prelude
  have hsteady := hincluder.steady hbuiltins
  refine ⟨hsteady, fun name builtin hget args => ?_, ?_⟩
  · exact hbuiltins name builtin hget _ args exported_steady hsteady
  · intro var below namePos input body pos session items computed hitems loop
    have hinherits := @inherits_tidy world document includer hbuiltins hsteady
    have hbody := hinherits.toText (hinherits.evalNode body)
    -- each round gives the scope back, so only the checks of the rounds add up
    have hrounds : Eval.Steady (do
        let texts ← eachItem var (toText (evalNode world document includer body)) items
        return some (Value.str ("\n".intercalate texts))) :=
      (eachItem_steady hbody var items).bind fun _ => .pure _
    obtain ⟨checks, hchecks⟩ := hrounds computed
    have hloop : ((evalNode world document includer loop).run session).2 =
        computed.waited checks := by
      rw [evalNode_forLoop, Eval.run_bind, hitems]
      exact hchecks
    have htext : ((toText (evalNode world document includer loop)).run session).2 =
        computed.waited checks :=
      (run_toText_snd _ session).trans hloop
    refine ⟨checks, hloop, fun later => ?_⟩
    rw [run_renderNodes_cons]
    rcases hrun : (toText (evalNode world document includer loop)).run session with ⟨_ | _, after⟩
    all_goals
      rw [hrun] at htext
      obtain rfl : after = computed.waited checks := htext
      rfl

/-- The tree of a loop over the posts with `{{ x = p.n }}{{: 10 / p.n }}` as its body. -/
def dividingTemplate : List Node :=
  [⟨.forLoop, [.leaf (.identifier "p") ⟨1, 8⟩, .leaf (.stringLiteral "posts") ⟨1, 13⟩,
    ⟨.content, [⟨.block, [⟨.statementList, [⟨.expression .assignment,
        [.leaf (.varName ["x"]) ⟨1, 26⟩, .leaf (.varName ["p", "n"]) ⟨1, 30⟩], ⟨1, 26⟩⟩],
          ⟨1, 26⟩⟩], ⟨1, 23⟩⟩,
      ⟨.printBlock, [⟨.expression .mult, [.leaf (.numberLiteral 10) ⟨1, 41⟩,
        .leaf (.operator "/") ⟨1, 44⟩, .leaf (.varName ["p", "n"]) ⟨1, 46⟩], ⟨1, 41⟩⟩], ⟨1, 37⟩⟩],
      ⟨1, 23⟩⟩], ⟨1, 1⟩⟩]

/-- The body of a loop: it binds `x` to the item and includes the template. -/
def includingBody : Node :=
  ⟨.content, [⟨.block, [⟨.statementList, [⟨.expression .assignment,
      [.leaf (.varName ["x"]) ⟨1, 23⟩, .leaf (.varName ["i"]) ⟨1, 27⟩], ⟨1, 23⟩⟩,
    ⟨.funcCall, [.leaf (.identifier "template") ⟨1, 30⟩,
      ⟨.argsList, [.leaf (.stringLiteral "t") ⟨1, 39⟩], ⟨1, 39⟩⟩], ⟨1, 30⟩⟩], ⟨1, 23⟩⟩],
    ⟨1, 20⟩⟩], ⟨1, 20⟩⟩

set_option maxRecDepth 2048 in
open Evaluation in
/-- The second post fails inside the template inside the loop, and `x` is still what it was. The
same loop may be told to stop as soon as the template has bound its `x`. -/
theorem scopes_are_restored_after_division :
    let world : World :=
      { templates := TemplateLibrary.empty.append "t" dividingTemplate
        listing := fun _ => .ok [.ofText "a", .ofText "b"] }
    let document : Document := { path := .ofText "p" }
    let session : Session :=
      { context := .ofList [("x", .str "mine"), ("list", .container (.ofList [("k", .int 7)]))]
        exports := (ExportStore.empty.insert (.ofText "a") ["n"] (.int 2)).insert (.ofText "b")
          ["n"] (.int 0) }
    let list : Node := .leaf (.varName ["list"]) ⟨1, 13⟩
    let loop : Node := ⟨.forLoop, [⟨.identifier "i", [], ⟨1, 8⟩⟩, list, includingBody], ⟨1, 1⟩⟩
    (loopInput world document (inclusion world document) ⟨1, 1⟩ list).run session =
        (.ok [.int 7], session) ∧
      (eval world document loop).run session = (.error (.divisionByZero ⟨1, 41⟩), session) ∧
      (eval world document loop).run { session with patience := some 15 } =
        (.error .interrupted, { session with patience := some 0 }) := by
  intro world document session list loop
  let hurried : Session := { session with patience := some 15 }
  have hitems : (loopInput world document (inclusion world document) ⟨1, 1⟩ list).run session =
      (.ok [.int 7], session) := by
    cbv
  have hitems' : (loopInput world document (inclusion world document) ⟨1, 1⟩ list).run hurried =
      (.ok [.int 7], hurried.waited 2) := by
    cbv
  have herror : ((eval world document loop).run session).1 =
      .error (.divisionByZero ⟨1, 41⟩) := by
    cbv
  have hstopped : ((eval world document loop).run hurried).1 = .error .interrupted := by
    cbv
  have hpatience : ((eval world document loop).run hurried).2.patience = some 0 := by
    cbv
  obtain ⟨-, -, hloops⟩ := @scopes_are_restored world rfl document _ .ofDocument
  obtain ⟨checks, hloop, -⟩ := hloops "i" [] ⟨1, 8⟩ list includingBody ⟨1, 1⟩ _ _ _ hitems
  obtain ⟨checks', hloop', -⟩ := hloops "i" [] ⟨1, 8⟩ list includingBody ⟨1, 1⟩ _ _ _ hitems'
  have hafter : ((hurried.waited 2).waited checks').patience = some 0 :=
    (congrArg Session.patience hloop').symm.trans hpatience
  refine ⟨hitems, Prod.ext herror hloop, Prod.ext hstopped (hloop'.trans ?_)⟩
  exact congrArg (fun patience => { session with patience := patience }) hafter

end PageTemplate
