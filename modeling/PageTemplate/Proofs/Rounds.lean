import Mathlib
import PageTemplate.Node.View
import PageTemplate.Proofs.Effects
import PageTemplate.Proofs.LocalBindings

namespace PageTemplate

namespace Node

/-- What fits the kind of a loop has a name for its items, something to run over and a body. -/
theorem WellShaped.eq_forLoop {loop : Node} (h : loop.WellShaped) (hkind : loop.kind = .forLoop) :
    ∃ var namePos input body,
      loop = ⟨.forLoop, [⟨.identifier var, [], namePos⟩, input, body], loop.pos⟩ ∧
      Role.loopInput.admits input.kind = true := by
  have hfits := h _ (.self _)
  obtain ⟨kind, children, pos⟩ := loop
  obtain rfl : kind = .forLoop := hkind
  have hroles : List.Forall₂ _ [Role.identifier, .loopInput, .content] children :=
    forall₂_of_fixedRoles hfits rfl
  obtain _ | ⟨hname, _ | ⟨hinput, _ | ⟨-, ⟨⟩⟩⟩⟩ := hroles
  next name input body =>
    obtain ⟨var, hvar⟩ := (h.child List.mem_cons_self).eq_identifier hname
    exact ⟨var, name.pos, input, body, by rw [hvar], hinput⟩

/-- A loop is seen as its parts. -/
theorem view?_eq_loop {node input body : Node} {var : String}
    (h : node.view? = some (.loop var input body)) :
    ∃ name, node = ⟨.forLoop, [name, input, body], node.pos⟩ ∧ name.identifier? = some var := by
  obtain ⟨kind, children, pos⟩ := node
  unfold view? at h
  split at h
  case h_10 name _ _ _ heq =>
    obtain ⟨_, hname, hloop⟩ := Option.map_eq_some_iff.1 h
    cases hloop
    cases heq
    exact ⟨name, rfl, hname⟩
  all_goals simp at h

theorem isExpression_of_loopInput {kind : NodeKind} (h : Role.loopInput.admits kind = true) :
    kind.isExpression = true := by
  cases kind with
  | stringLiteral _ | varName _ | funcCall => rfl
  | _ => cases h

end Node

def Session.inRound (session : Session) (var : String) (item : Value) : Session :=
  { session with
    context := session.context.merge (.ofList [(var, item)])
    exporting := false }

namespace Evaluation

open Eval (Tidy)

section

variable (world : World) (document : Document) (session : Session)

/-- The text of the body of a loop for one item, as if there were no other. -/
def roundText (var : String) (body : Node) (item : Value) : Except EvalError String :=
  ((render world document body).run (session.inRound var item)).1

/-- What the input of a loop offers once it has been evaluated: the entries of a scope in their
order, or the exports of the files under a content path in the order of the listing. -/
inductive Offers (input : Node) : List Value → Prop
  | entries {scope : Context} {after : Session} :
    (needValue input.pos (eval world document input)).run session =
      (.ok (.container scope), after) →
    Offers input scope.values
  | files {path : String} {files : List Path} {after : Session} :
    (needValue input.pos (eval world document input)).run session = (.ok (.str path), after) →
    world.listing path = .ok files →
    Offers input (files.map fun file => .container (session.exports.get file))

/-- A loop in a parsed tree, with the name for its items, its body and what it runs over. -/
def LoopsOver (loop : Node) (var : String) (body : Node) (items : List Value) : Prop :=
  loop.Parsed ∧ ∃ input, loop.view? = some (.loop var input body) ∧
    Offers world document session input items

end

def joinRounds (round : Value → Except EvalError String) (items : List Value) :
    Except EvalError String :=
  "\n".intercalate <$> items.mapM round

section

variable {round : Value → Except EvalError String}

/-- If every round has a text, these are the lines of the loop. -/
theorem joinRounds_of_ok {items : List Value} {texts : List String}
    (h : List.Forall₂ (fun item text => round item = .ok text) items texts) :
    joinRounds round items = .ok ("\n".intercalate texts) := by
  have htexts : items.mapM round = .ok texts := by
    induction h with
    | nil => rfl
    | cons hround _ ih =>
      rw [List.mapM_cons, hround, ih]
      rfl
  rw [joinRounds, htexts]
  rfl

/-- The first round that fails is the failure of the loop. -/
theorem joinRounds_of_error {earlier later : List Value} {item : Value} {e : EvalError}
    (hearlier : ∀ other ∈ earlier, ∃ text, round other = .ok text) (h : round item = .error e) :
    joinRounds round (earlier ++ item :: later) = .error e := by
  have hfails : (earlier ++ item :: later).mapM round = .error e := by
    induction earlier with
    | nil =>
      rw [List.nil_append, List.mapM_cons, h]
      rfl
    | cons first rest ih =>
      obtain ⟨⟨text, htext⟩, hrest⟩ := List.forall_mem_cons.1 hearlier
      rw [List.cons_append, List.mapM_cons, htext, ih hrest]
      rfl
  rw [joinRounds, hfails]
  rfl

theorem ne_nil_of_mapM {items : List Value} {texts : List String}
    (h : items.mapM round = .ok texts) (hitems : items ≠ []) : texts ≠ [] := by
  cases items with
  | nil => exact absurd rfl hitems
  | cons item rest =>
    rw [List.mapM_cons] at h
    cases hround : round item with
    | error e =>
      rw [hround] at h
      cases h
    | ok text =>
      cases hrest : rest.mapM round with
      | error e =>
        rw [hround, hrest] at h
        cases h
      | ok others =>
        rw [hround, hrest] at h
        cases h
        exact List.cons_ne_nil text others

/-- Two loops side by side are one loop, except for the line end between them. -/
theorem joinRounds_append {first second : List Value} (hfirst : first ≠ [])
    (hsecond : second ≠ []) :
    joinRounds round (first ++ second) = do
      let front ← joinRounds round first
      let back ← joinRounds round second
      return front ++ "\n" ++ back := by
  unfold joinRounds
  rw [List.mapM_append]
  cases hfront : first.mapM round with
  | error e => rfl
  | ok front =>
    cases hback : second.mapM round with
    | error e => rfl
    | ok back =>
      have hjoined := @String.intercalate_append_of_ne_nil front back "\n"
        (ne_nil_of_mapM hfront hfirst) (ne_nil_of_mapM hback hsecond)
      exact congrArg Except.ok hjoined

end

variable {world : World} {document : Document} {session : Session}

/-- A loop over a body that restores its session comes to the texts of the body for each item, and
every round finds the session that the first has found. -/
theorem run_eachItem {body : Eval String} (hbody : Tidy body) (hgo : session.patience = none)
    (var : String) (items : List Value) :
    (eachItem var body items).run session =
      (items.mapM fun item => (body.run (session.inRound var item)).1, session) := by
  induction items with
  | nil => rfl
  | cons item rest ih =>
    -- the round gives the session back, so the rest of the items find the same one
    have hround : (Eval.inScope (session.context.merge (.ofList [(var, item)])) body).run session =
        ((body.run (session.inRound var item)).1, session) := by
      have hsteady := Eval.Steady.inScope hbody (session.context.merge (.ofList [(var, item)]))
      have hafter := hsteady.eq hgo
      rw [Eval.run_inScope] at hafter ⊢
      exact Prod.ext rfl hafter
    rw [eachItem, Eval.run_bind, Eval.run_checkInterrupt_of_none hgo, List.mapM_cons]
    dsimp only
    rw [Eval.run_get_bind, Eval.run_bind, hround]
    cases (body.run (session.inRound var item)).1 with
    | error e => rfl
    | ok text =>
      dsimp only
      rw [Eval.run_bind, ih]
      cases rest.mapM fun item => (body.run (session.inRound var item)).1 <;> rfl

/-- The value of the input is turned into what it offers, and the session is not touched. -/
theorem Offers.run_loopItems {input : Node} {items : List Value}
    (h : Offers world document session input items) (pos : Position) : ∃ value after,
    (needValue input.pos (eval world document input)).run session = (.ok value, after) ∧
      (loopItems world pos value).run session = (.ok items, session) := by
  cases h with
  | entries hvalue => exact ⟨_, _, hvalue, rfl⟩
  | @files path files _ hvalue hfiles =>
    refine ⟨_, _, hvalue, ?_⟩
    have hexported : (exported world path).run session =
        (.ok (files.map session.exports.get), session) := by
      rw [exported, hfiles]
      rfl
    rw [loopItems, Eval.run_bind, hexported]
    exact Prod.ext (congrArg Except.ok (List.map_map ..)) rfl

/-- A string literal is the text that it comes to. -/
theorem run_needValue_stringLiteral (hgo : session.patience = none) (path : String)
    (children : List Node) (pos : Position) :
    (needValue pos (eval world document ⟨.stringLiteral path, children, pos⟩)).run session =
      (.ok (.str path), session) := by
  rw [eval, evalNode, needValue, Eval.run_bind, Eval.run_bind, Eval.run_checkInterrupt_of_none hgo]
  rfl

/-- A loop runs over what its input comes to, and finding that out changes nothing. -/
theorem run_loopInput (hbuiltins : world.builtins.Steady) (hgo : session.patience = none)
    {input : Node} (hinput : input.Computes) {items : List Value}
    (h : Offers world document session input items) (pos : Position) :
    (loopInput world document (inclusion world document) pos input).run session =
      (.ok items, session) := by
  obtain ⟨value, after, hvalue, hitems⟩ := h.run_loopItems pos
  obtain ⟨-, checks, hafter⟩ := computes_quiet hbuiltins hinput session value after hvalue
  obtain rfl : after = session := hafter.trans (Session.waited_of_none hgo checks)
  rw [loopInput, Eval.run_bind, Eval.run_checkInterrupt_of_none hgo]
  obtain ⟨kind, children, inputPos⟩ := input
  -- a literal is taken as it is, and that is what its evaluation would have come to
  cases kind with
  | stringLiteral path =>
    rw [run_needValue_stringLiteral hgo] at hvalue
    cases hvalue
    exact hitems
  | _ =>
    unfold eval at hvalue
    dsimp only
    rw [Eval.run_bind, hvalue]
    exact hitems

theorem render_tidy (hbuiltins : world.builtins.Steady) (node : Node) :
    Tidy (render world document node) :=
  have hinherits := inherits_tidy hbuiltins (@inclusion_steady world document hbuiltins)
  hinherits.toText (hinherits.evalNode node)

/-- A loop comes to its rounds, each of them by itself, and leaves the session as it is. -/
theorem run_forLoop (hbuiltins : world.builtins.Steady) (hgo : session.patience = none)
    {var : String} {below : List Node} {namePos pos : Position} {input body : Node}
    (hinput : input.Computes) {items : List Value}
    (h : Offers world document session input items) :
    (eval world document ⟨.forLoop, [⟨.identifier var, below, namePos⟩, input, body], pos⟩).run
      session =
      ((joinRounds (roundText world document session var body) items).map fun text =>
        some (.str text), session) := by
  have hrounds : (eachItem var (toText (evalNode world document (inclusion world document) body))
      items).run session = (items.mapM (roundText world document session var body), session) :=
    run_eachItem (render_tidy hbuiltins body) hgo var items
  rw [eval, evalNode_forLoop, Eval.run_bind, run_loopInput hbuiltins hgo hinput h]
  dsimp only
  rw [Eval.run_bind, hrounds, joinRounds]
  cases items.mapM (roundText world document session var body) <;> rfl

/-- A parsed loop comes to its rounds, each of them by itself, and leaves the session as it is. -/
theorem LoopsOver.run_eval (hbuiltins : world.builtins.Steady) (hgo : session.patience = none)
    {loop body : Node} {var : String} {items : List Value}
    (h : LoopsOver world document session loop var body items) :
    (eval world document loop).run session =
      ((joinRounds (roundText world document session var body) items).map fun text =>
        some (.str text), session) := by
  obtain ⟨hparsed, input, hview, hoffers⟩ := h
  obtain ⟨name, hloop, hname⟩ := Node.view?_eq_loop hview
  have hsound := hparsed.sound
  obtain ⟨var', namePos, input', body', hloop', hadmits⟩ :=
    hsound.wellShaped.eq_forLoop (congrArg Node.kind hloop)
  have hmem : input ∈ loop.children := by
    rw [hloop]
    exact List.mem_cons_of_mem _ List.mem_cons_self
  rw [hloop'] at hloop
  cases hloop
  cases hname
  -- what the grammar admits as the input of a loop computes
  have hinput : input.Computes := Node.computes_of_wellShaped
    (Node.isExpression_of_loopInput hadmits) (hsound.wellShaped.child hmem)
    (hsound.callsTakeExpressions.child hmem)
  rw [hloop']
  exact run_forLoop hbuiltins hgo hinput hoffers

theorem run_render_of_eval {node : Node} {value : Value} {after : Session}
    (h : (eval world document node).run session = (.ok (some value), after)) :
    (render world document node).run session = (.ok value.text, after) := by
  rw [render, toText, Eval.run_bind, h]
  rfl

end Evaluation

open Evaluation in
/-- The rounds of a loop have nothing to do with each other. A parsed loop comes to the texts of its
body for each item alone, with line ends between them, or it fails like the first item for which the
body fails; in any case it leaves the session as it is. So a loop over the items of two loops comes
to what they come to, with a line end between them. -/
theorem rounds_are_independent {world : World} (hprelude : world.builtins = .prelude)
    (document : Document) {session : Session} (hgo : session.patience = none) :
    (∀ loop : Node, loop.Parsed → loop.kind = .forLoop →
      ∃ var input body, loop.view? = some (.loop var input body)) ∧
    (∀ loop var body items, LoopsOver world document session loop var body items →
      (∀ texts, List.Forall₂ (fun item text =>
          roundText world document session var body item = .ok text) items texts →
        (eval world document loop).run session =
          (.ok (some (.str ("\n".intercalate texts))), session)) ∧
      ∀ earlier item later e, items = earlier ++ item :: later →
        (∀ other ∈ earlier, ∃ text, roundText world document session var body other = .ok text) →
        roundText world document session var body item = .error e →
        (eval world document loop).run session = (.error e, session)) ∧
    ∀ first second both var body items items', items ≠ [] → items' ≠ [] →
      LoopsOver world document session first var body items →
      LoopsOver world document session second var body items' →
      LoopsOver world document session both var body (items ++ items') →
        ((render world document both).run session).1 = do
          let front ← ((render world document first).run session).1
          let back ← ((render world document second).run session).1
          return front ++ "\n" ++ back := by
  have hbuiltins : world.builtins.Steady := hprelude ▸ Builtins.steady_prelude
  refine ⟨?_, ?_, ?_⟩
  · intro loop hparsed hkind
    obtain ⟨var, namePos, input, body, hloop, -⟩ := hparsed.sound.wellShaped.eq_forLoop hkind
    exact ⟨var, input, body, by rw [hloop]; rfl⟩
  · intro loop var body items hloop
    have hrun := hloop.run_eval hbuiltins hgo
    constructor
    · intro texts htexts
      rw [hrun, joinRounds_of_ok htexts]
      rfl
    · intro earlier item later e hsplit hearlier hitem
      rw [hrun, hsplit, joinRounds_of_error hearlier hitem]
      rfl
  · intro first second both var body items items' hitems hitems' hfirst hsecond hboth
    -- as text a loop is its rounds joined, and joining respects appending
    have hrender {loop : Node} {items : List Value}
        (h : LoopsOver world document session loop var body items) :
        ((render world document loop).run session).1 =
          joinRounds (roundText world document session var body) items := by
      rw [render, toText, Eval.run_bind, h.run_eval hbuiltins hgo]
      cases joinRounds (roundText world document session var body) items <;> rfl
    rw [hrender hfirst, hrender hsecond, hrender hboth]
    exact joinRounds_append hitems hitems'

/-- The tokens of a loop `{{ for p in "…" }}{{ s = s + p.n }}{{: s }}{{ end }}` over a content path,
all at one place. -/
def addingTokens (path : String) : List Token :=
  [.delimiter .blockOpen, .keyword .forWord, .identifier "p", .keyword .inWord, .string path,
    .delimiter .blockClose, .delimiter .blockOpen, .identifier "s", .operator .assign "=",
    .identifier "s", .operator .plus "+", .dottedName ["p", "n"], .delimiter .blockClose,
    .delimiter .printOpen, .identifier "s", .delimiter .blockClose, .delimiter .blockOpen,
    .keyword .endWord, .delimiter .blockClose].map fun kind => ⟨kind, ⟨1, 1⟩⟩

def addingBody : Node :=
  ⟨.content, [⟨.block, [⟨.statementList, [⟨.expression .assignment, [.leaf (.varName ["s"]) ⟨1, 1⟩,
      ⟨.expression .add, [.leaf (.varName ["s"]) ⟨1, 1⟩, .leaf (.operator "+") ⟨1, 1⟩,
        .leaf (.varName ["p", "n"]) ⟨1, 1⟩], ⟨1, 1⟩⟩], ⟨1, 1⟩⟩], ⟨1, 1⟩⟩], ⟨1, 1⟩⟩,
    ⟨.printBlock, [.leaf (.varName ["s"]) ⟨1, 1⟩], ⟨1, 1⟩⟩], ⟨1, 1⟩⟩

def addingLoop (path : String) : Node :=
  ⟨.forLoop, [.leaf (.identifier "p") ⟨1, 1⟩, .leaf (.stringLiteral path) ⟨1, 1⟩, addingBody],
    ⟨1, 1⟩⟩

set_option maxRecDepth 2048 in
theorem addingLoop_parsed (path : String) : (addingLoop path).Parsed := by
  refine ⟨addingTokens path, [addingLoop path], addingLoop path, ?_, List.mem_cons_self, .self _⟩
  cbv

def listAdded : String → Except String (List Path)
  | "one" => .ok [.ofText "a"]
  | "two" => .ok [.ofText "b"]
  | "both" => .ok [.ofText "a", .ofText "b"]
  | "broken" => .ok [.ofText "a", .ofText "c", .ofText "b"]
  | path => .error path

set_option maxRecDepth 2048 in
open Evaluation in
/-- No round adds to what another has added. The second of the last three posts has no number. -/
theorem rounds_are_independent_of_sums :
    let world : World := { listing := listAdded }
    let document : Document := { path := .ofText "p" }
    let session : Session :=
      { context := .ofList [("s", .int 0)]
        exports := (ExportStore.empty.insert (.ofText "a") ["n"] (.int 1)).insert (.ofText "b")
          ["n"] (.int 2) }
    ((render world document (addingLoop "both")).run session).1 = .ok "1\n2" ∧
      (eval world document (addingLoop "two")).run session = (.ok (some (.str "2")), session) ∧
      (eval world document (addingLoop "broken")).run session =
        (.error (.undefinedVariable "p.n" ⟨1, 1⟩), session) := by
  intro world document session
  obtain ⟨-, hloops, hjoins⟩ :=
    @rounds_are_independent world rfl document session (rfl : session.patience = none)
  have hover (path : String) (files : List Path) (hfiles : world.listing path = .ok files) :
      LoopsOver world document session (addingLoop path) "p" addingBody
        (files.map fun file => .container (session.exports.get file)) :=
    ⟨addingLoop_parsed path, _, rfl, .files (run_needValue_stringLiteral rfl path [] _) hfiles⟩
  have hone : roundText world document session "p" addingBody
      (.container (session.exports.get (.ofText "a"))) = .ok "1" := by
    cbv
  have htwo : roundText world document session "p" addingBody
      (.container (session.exports.get (.ofText "b"))) = .ok "2" := by
    cbv
  have hbroken : roundText world document session "p" addingBody
      (.container (session.exports.get (.ofText "c"))) =
        .error (.undefinedVariable "p.n" ⟨1, 1⟩) := by
    cbv
  have hfirst := (hloops _ _ _ _ (hover "one" _ rfl)).1 ["1"] (.cons hone .nil)
  have hsecond := (hloops _ _ _ _ (hover "two" _ rfl)).1 ["2"] (.cons htwo .nil)
  have hboth := hjoins _ _ _ _ _ _ _ (List.cons_ne_nil _ _) (List.cons_ne_nil _ _)
    (hover "one" _ rfl) (hover "two" _ rfl) (hover "both" _ rfl)
  rw [run_render_of_eval hfirst, run_render_of_eval hsecond] at hboth
  refine ⟨hboth, hsecond, (hloops _ _ _ _ (hover "broken" _ rfl)).2 [_] _ [_] _ rfl ?_ hbroken⟩
  exact List.forall_mem_singleton.2 ⟨"1", hone⟩

end PageTemplate
