import PageTemplate.Proofs.Records

namespace PageTemplate

namespace Evaluation

open Eval (Record Recorded)

section

variable (world : World) (document : Document) (includer : Includer)

mutual

/-- The bindings that the evaluation of a node makes in the scope it begins in. An assignment binds
what its value has turned out to be; loops and calls bind what their parts in this scope do. -/
def boundBy (node : Node) : Record :=
  Record.none.andThen Eval.checkInterrupt fun _ =>
  match node with
  | ⟨.block, [⟨_, statements, _⟩], _⟩ | ⟨.statementList, statements, _⟩ =>
    boundByEach statements
  | ⟨.printBlock, [expr], _⟩ => boundBy expr
  | ⟨.content, items, _⟩ => boundByEach items
  | ⟨.ifStatement, [_, condition, body, ⟨_, branches, _⟩, _], _⟩ =>
    (boundBy condition).andThen
      (needBool condition.pos (evalNode world document includer condition)) fun holds =>
        if holds then boundBy body else boundByBranches branches .none
  | ⟨.ifStatement, [_, condition, body, ⟨_, branches, _⟩, ⟨_, [_, elseBody], _⟩, _], _⟩ =>
    (boundBy condition).andThen
      (needBool condition.pos (evalNode world document includer condition)) fun holds =>
        if holds then boundBy body else boundByBranches branches (boundBy elseBody)
  | ⟨.elseClause, [_, body], _⟩ => boundBy body
  | ⟨.forLoop, [⟨.identifier _, _, _⟩, input, _], _⟩ => boundBy input
  | ⟨.funcCall, [⟨.identifier name, _, _⟩, ⟨_, args, _⟩], pos⟩ =>
    Record.none.andThen (callee world name args.length pos) fun _ => boundByArgs args
  | ⟨.expression .assignment, [⟨.varName target, _, _⟩, value], _⟩ =>
    (boundBy value).andThen (needValue value.pos (evalNode world document includer value))
      fun result _ => [(target, result)]
  | ⟨.expression .unary, [⟨.operator _, _, _⟩, operand], _⟩ => boundBy operand
  | ⟨.expression _, [left, ⟨.operator _, _, _⟩, right], _⟩ =>
    (boundBy left).andThen (needValue left.pos (evalNode world document includer left))
      fun _ => boundBy right
  | _ => .none

def boundByEach : List Node → Record
  | [] => .none
  | node :: rest =>
    (boundBy node).andThen (evalNode world document includer node) fun _ => boundByEach rest

def boundByBranches : List Node → Record → Record
  | condition :: body :: rest, otherwise =>
    (boundBy condition).andThen
      (needBool condition.pos (evalNode world document includer condition)) fun holds =>
        if holds then boundBy body else boundByBranches rest otherwise
  | _, otherwise => otherwise

def boundByArgs : List Node → Record
  | [] => .none
  | arg :: rest =>
    (boundBy arg).andThen (needValue arg.pos (evalNode world document includer arg))
      fun _ => boundByArgs rest

end

/-- The bindings that a document makes in its own scope. -/
def assignments (nodes : List Node) : Record :=
  boundByEach world document (inclusion world document) nodes

end

variable {world : World} {document : Document} {includer : Includer} {file : Path}
  {alike : ExportStore → ExportStore → Prop}

/-- Asking for exports binds nothing, and stores that are alike give the same answer. -/
theorem exported_recorded (hhides : world.Hides file alike) (path : String) :
    Recorded alike file .none (exported world path) := by
  refine .of_steady (exported_steady path) fun session exports halike => ?_
  unfold exported
  split
  · exact ⟨rfl, rfl⟩
  · next files hfiles =>
    have hgets : files.map session.exports.get = files.map exports.get :=
      List.map_congr_left fun other hother => hhides.listed halike hfiles other hother
    rw [Eval.run_get_bind, Eval.run_get_bind, hgets]
    exact ⟨rfl, rfl⟩

theorem loopItems_recorded (hhides : world.Hides file alike) (pos : Position) (value : Value) :
    Recorded alike file .none (loopItems world pos value) := by
  unfold loopItems
  split
  · exact .pure _
  · exact (exported_recorded hhides _).finish hhides fun _ => .pure _
  · exact .throw _

/-- The rounds of a loop bind nothing outside of them. -/
theorem eachItem_recorded (hhides : world.Hides file alike) {record : Record} {body : Eval String}
    (hbody : Recorded alike file record body) (var : String) (items : List Value) :
    Recorded alike file .none (eachItem var body items) := by
  induction items with
  | nil => exact .pure []
  | cons item items ih =>
    have hround : Recorded alike file .none (do
        let scope := (← get).context.merge (.ofList [(var, item)])
        Eval.inScope scope body) :=
      .get_bind (fun session => hbody.inScope _) fun _ _ => rfl
    have hrest (text : String) :
        Recorded alike file .none (do return text :: (← eachItem var body items)) :=
      ih.finish hhides fun texts => .pure _
    exact Recorded.checkInterrupt.finish hhides fun _ => (hround.finish hhides hrest :)

section

variable (hhides : world.Hides document.path alike)

include hhides

theorem evalStatements_recorded {statements : List Node}
    (hnodes : ∀ node ∈ statements, Recorded alike document.path
      (boundBy world document includer node) (evalNode world document includer node)) :
    Recorded alike document.path (boundByEach world document includer statements)
      (evalStatements world document includer statements) := by
  induction statements with
  | nil =>
    rw [evalStatements, boundByEach]
    exact .pure ""
  | cons statement rest ih =>
    have hfirst := hnodes statement List.mem_cons_self
    rw [boundByEach]
    cases rest with
    | nil =>
      rw [evalStatements, boundByEach]
      exact hfirst.bind hhides fun value => .pure _
    | cons next rest =>
      rw [evalStatements]
      · exact hfirst.bind hhides fun _ => ih fun node hnode =>
          hnodes node (List.mem_cons_of_mem _ hnode)
      · exact List.cons_ne_nil _ _

theorem renderNodes_recorded {nodes : List Node}
    (hnodes : ∀ node ∈ nodes, Recorded alike document.path
      (boundBy world document includer node) (evalNode world document includer node)) :
    Recorded alike document.path (boundByEach world document includer nodes)
      (renderNodes world document includer nodes) := by
  induction nodes with
  | nil =>
    rw [renderNodes, boundByEach]
    exact .pure ""
  | cons node rest ih =>
    rw [renderNodes, boundByEach, toText, bind_assoc]
    refine (hnodes node List.mem_cons_self).bind hhides fun value => ?_
    have hrest (text : String) : Recorded alike document.path
        (boundByEach world document includer rest)
        (do return text ++ (← renderNodes world document includer rest)) :=
      (ih fun other hother => hnodes other (List.mem_cons_of_mem _ hother)).finish hhides fun _ =>
        .pure _
    cases value with
    | none => exact hrest ""
    | some value => exact hrest value.text

/-- Arguments bind one after the other, up to the first that fails or has no value. -/
theorem evalArgs_recorded {args : List Node}
    (hnodes : ∀ node ∈ args, Recorded alike document.path
      (boundBy world document includer node) (evalNode world document includer node)) :
    Recorded alike document.path (boundByArgs world document includer args)
      (evalArgs world document includer args) := by
  induction args with
  | nil =>
    rw [evalArgs, boundByArgs]
    exact .pure []
  | cons arg rest ih =>
    rw [evalArgs, boundByArgs]
    refine ((hnodes arg List.mem_cons_self).needValue hhides arg.pos).bind hhides fun value => ?_
    exact (ih fun other hother => hnodes other (List.mem_cons_of_mem _ hother)).finish hhides
      fun _ => .pure _

theorem evalBranches_recorded {branches : List Node} {record : Record} {otherwise : Eval String}
    (hnodes : ∀ node ∈ branches, Recorded alike document.path
      (boundBy world document includer node) (evalNode world document includer node))
    (hotherwise : Recorded alike document.path record otherwise) :
    Recorded alike document.path (boundByBranches world document includer branches record)
      (evalBranches world document includer branches otherwise) := by
  induction hlength : branches.length using Nat.strongRecOn generalizing branches with
  | _ n ih =>
    match branches with
    | [] => exact hotherwise
    | [single] => exact hotherwise
    | condition :: body :: rest =>
      rw [evalBranches, boundByBranches]
      refine ((hnodes condition List.mem_cons_self).needBool hhides _).bind hhides fun holds => ?_
      cases holds with
      | true => exact (hnodes body (List.mem_cons_of_mem _ List.mem_cons_self)).toText hhides
      | false =>
        refine ih rest.length ?_ (fun node hnode => ?_) rfl
        · rw [← hlength, List.length_cons, List.length_cons]
          omega
        · exact hnodes node (List.mem_cons_of_mem _ (List.mem_cons_of_mem _ hnode))

/-- An `if` without its last resort: only the branch that is taken binds anything. -/
theorem choice_recorded {condition body : Node} {branches : List Node} {record : Record}
    {otherwise : Eval String}
    (hcondition : Recorded alike document.path (boundBy world document includer condition)
      (evalNode world document includer condition))
    (hbody : Recorded alike document.path (boundBy world document includer body)
      (evalNode world document includer body))
    (hbranches : ∀ node ∈ branches, Recorded alike document.path
      (boundBy world document includer node) (evalNode world document includer node))
    (hotherwise : Recorded alike document.path record otherwise) :
    Recorded alike document.path
      ((boundBy world document includer condition).andThen
        (needBool condition.pos (evalNode world document includer condition)) fun holds =>
          if holds then boundBy world document includer body
          else boundByBranches world document includer branches record)
      (do
        if ← needBool condition.pos (evalNode world document includer condition) then
          return some (Value.str (← toText (evalNode world document includer body)))
        else
          return some (Value.str (← evalBranches world document includer branches otherwise))) := by
  refine (hcondition.needBool hhides _).bind hhides fun holds => ?_
  split
  · exact (hbody.toText hhides).finish hhides fun _ => .pure _
  · exact (evalBranches_recorded hhides hbranches hotherwise).finish hhides fun _ => .pure _

/-- The bindings on record for a node are the effect of its evaluation, if calls have none. -/
theorem evalNode_recorded (hcall : ∀ {name : String} {builtin : Builtin},
      world.builtins.get? name = some builtin → ∀ args, Recorded alike document.path .none
        (builtin.run ⟨document, exported world, includer⟩ args)) (node : Node) :
    Recorded alike document.path (boundBy world document includer node)
      (evalNode world document includer node) := by
  induction hsize : sizeOf node using Nat.strongRecOn generalizing node with
  | _ n ih =>
    have hchild : ∀ child ∈ node.children, Recorded alike document.path
        (boundBy world document includer child) (evalNode world document includer child) := by
      intro child hmem
      have hlt := Node.sizeOf_lt_of_mem hmem
      exact ih (sizeOf child) (by omega) child rfl
    have hpart : ∀ child ∈ node.children, ∀ part ∈ child.children, Recorded alike document.path
        (boundBy world document includer part) (evalNode world document includer part) := by
      intro child hmem part hpart
      have hlt := Node.sizeOf_lt_of_mem hmem
      have hlt' := Node.sizeOf_lt_of_mem hpart
      exact ih (sizeOf part) (by omega) part rfl
    rw [evalNode.eq_def]
    split
    -- texts and literals have a value of their own
    iterate 6 exact Recorded.checkInterrupt.bind hhides fun _ => .pure _
    · refine Recorded.checkInterrupt.bind hhides fun _ => ?_
      refine .get_bind (fun session => ?_) fun _ _ => rfl
      split
      · exact .pure _
      · exact .throw _
    · next kind statements pos _ =>
      have hall := hpart ⟨kind, statements, pos⟩ (by simp)
      exact Recorded.checkInterrupt.bind hhides fun _ =>
        (evalStatements_recorded hhides hall).finish hhides fun _ => .pure _
    · exact Recorded.checkInterrupt.bind hhides fun _ =>
        (evalStatements_recorded hhides hchild).finish hhides fun _ => .pure _
    · next expr _ =>
      exact Recorded.checkInterrupt.bind hhides fun _ =>
        ((hchild expr (by simp)).needValue hhides _).finish hhides fun _ => .pure _
    · exact Recorded.checkInterrupt.bind hhides fun _ =>
        (renderNodes_recorded hhides hchild).finish hhides fun _ => .pure _
    · next _ condition body kind branches pos _ _ =>
      have hbranches := hpart ⟨kind, branches, pos⟩ (by simp)
      exact Recorded.checkInterrupt.bind hhides fun _ => choice_recorded hhides
        (hchild condition (by simp)) (hchild body (by simp)) hbranches (.pure "")
    · next _ condition body kind branches pos kind' word elseBody pos' _ _ =>
      have hbranches := hpart ⟨kind, branches, pos⟩ (by simp)
      have helse := hpart ⟨kind', [word, elseBody], pos'⟩ (by simp) elseBody (by simp)
      exact Recorded.checkInterrupt.bind hhides fun _ => choice_recorded hhides
        (hchild condition (by simp)) (hchild body (by simp)) hbranches (helse.toText hhides)
    · next _ body _ =>
      exact Recorded.checkInterrupt.bind hhides fun _ =>
        ((hchild body (by simp)).toText hhides).finish hhides fun _ => .pure _
    · next var _ _ input body pos =>
      have hbody := (hchild body (by simp)).toText hhides
      have hloop (items : List Value) : Recorded alike document.path .none (do
          let texts ← eachItem var (toText (evalNode world document includer body)) items
          return some (Value.str ("\n".intercalate texts))) :=
        (eachItem_recorded hhides hbody var items).finish hhides fun _ => .pure _
      refine Recorded.checkInterrupt.bind hhides fun _ => ?_
      dsimp only
      split
      · next path hpath =>
        have hnone : boundBy world document includer input = .none := by
          obtain ⟨kind, children, inputPos⟩ := input
          obtain rfl : kind = .stringLiteral path := hpath
          exact Record.andThen_none _ _
        rw [hnone]
        exact (loopItems_recorded hhides pos _).finish hhides hloop
      · refine ((hchild input (by simp)).needValue hhides _).finish hhides fun value => ?_
        exact (loopItems_recorded hhides pos value).finish hhides hloop
    · next name _ _ kind args pos' pos =>
      have hargs := evalArgs_recorded hhides (hpart ⟨kind, args, pos'⟩ (by simp))
      refine Recorded.checkInterrupt.bind hhides fun _ => ?_
      dsimp only
      rcases callee_cases world name args.length pos with ⟨builtin, hget, heq⟩ | ⟨e, _, heq⟩
      · rw [heq, pure_bind, Record.none_andThen_pure]
        exact hargs.finish hhides fun values => (hcall hget _).finish hhides fun _ => .pure _
      · rw [heq, Record.none_andThen_throw]
        exact .throw e
    · next target _ _ value _ =>
      refine Recorded.checkInterrupt.bind hhides fun _ => ?_
      refine ((hchild value (by simp)).needValue hhides _).bind hhides fun result => ?_
      exact (Recorded.assign document target result).finish hhides fun _ => .pure _
    · next op _ _ operand pos =>
      refine Recorded.checkInterrupt.bind hhides fun _ => ?_
      refine ((hchild operand (by simp)).needValue hhides _).finish hhides fun value => ?_
      exact (Recorded.ofExcept _).finish hhides fun _ => .pure _
    · next kind left op _ _ right pos =>
      rw [boundBy]
      refine Recorded.checkInterrupt.bind hhides fun _ => ?_
      refine ((hchild left (by simp)).needValue hhides _).bind hhides fun lhs => ?_
      refine ((hchild right (by simp)).needValue hhides _).finish hhides fun rhs => ?_
      exact (Recorded.ofExcept _).finish hhides fun _ => .pure _
    · rw [boundBy]
      · exact Recorded.checkInterrupt.bind hhides fun _ => .pure _
      -- what remains to be shown is that the node has none of the forms above
      all_goals assumption

/-- A function that binds nothing by what it asks for binds nothing at all. -/
theorem inherits_silent {host : Host}
    (hexported : ∀ path, Recorded alike document.path .none (host.exported path))
    (hinclusion : ∀ key scope, Recorded alike document.path .none (host.inclusion key scope)) :
    host.Inherits fun _ step => Recorded alike document.path .none step where
  pure := .pure
  throw _ := .throw _
  bind hstep hnext := hstep.finish hhides hnext
  scope hnext := .get_bind (fun session => hnext session.context) fun _ _ => rfl
  exported := hexported
  inclusion := hinclusion

theorem call_recorded (hprelude : world.builtins = .prelude)
    (hincluder : ∀ key scope, Recorded alike document.path .none (includer key scope))
    {name : String} {builtin : Builtin} (hget : world.builtins.get? name = some builtin)
    (args : List Value) : Recorded alike document.path .none
      (builtin.run ⟨document, exported world, includer⟩ args) :=
  (inherits_silent hhides (exported_recorded hhides) hincluder).prelude (hprelude ▸ hget) args

/-- Inclusions bind nothing outside of the template. -/
theorem inclusionWithin_recorded (hprelude : world.builtins = .prelude) (remaining : Nat)
    (key : String) (scope : Context) :
    Recorded alike document.path .none (inclusionWithin world document remaining key scope) := by
  induction remaining generalizing key scope with
  | zero =>
    rw [inclusionWithin]
    exact .get_bind (fun _ => .throw _) fun _ _ => rfl
  | succ remaining ih =>
    rw [inclusionWithin]
    split
    · exact .throw _
    · next nodes _ =>
      have hnode (node : Node) (_ : node ∈ nodes) :=
        evalNode_recorded hhides (call_recorded hhides hprelude ih) node
      exact ((renderNodes_recorded hhides hnode).inScope scope).deeper

theorem inclusion_recorded (hprelude : world.builtins = .prelude) (key : String)
    (scope : Context) : Recorded alike document.path .none (inclusion world document key scope) :=
  .get_bind (fun _ => inclusionWithin_recorded hhides hprelude _ key scope) fun _ _ => rfl

/-- What a node of a document does to its session is what it is said to bind. -/
theorem eval_recorded (hprelude : world.builtins = .prelude) (node : Node) :
    Recorded alike document.path (boundBy world document (inclusion world document) node)
      (eval world document node) :=
  have hincluder := inclusion_recorded hhides hprelude
  evalNode_recorded hhides (call_recorded hhides hprelude hincluder) node

/-- All that the nodes of a document do to a session are the bindings on record. -/
theorem renderAll_recorded (hprelude : world.builtins = .prelude) (nodes : List Node) :
    Recorded alike document.path (assignments world document nodes)
      (renderAll world document nodes) :=
  renderNodes_recorded hhides fun node _ => eval_recorded hhides hprelude node

end
end Evaluation
end PageTemplate
