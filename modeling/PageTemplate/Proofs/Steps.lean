import PageTemplate.Evaluation
import PageTemplate.Proofs.Shapes

/-!
What evaluation asks of its session. A property of steps that holds of these few requests, and of
steps made of steps that have it, holds of the evaluation of every node; and so it is with relations
between the steps of two evaluations.
-/

namespace PageTemplate

namespace Session

variable {session : Session}

theorem waited_zero : session.waited 0 = session := by
  obtain ⟨context, exporting, depth, exports, patience⟩ := session
  cases patience <;> rfl

theorem waited_waited (first second : Nat) :
    (session.waited first).waited second = session.waited (first + second) := by
  obtain ⟨context, exporting, depth, exports, patience⟩ := session
  cases patience with
  | none => rfl
  | some patience => exact congrArg (Session.mk _ _ _ _ <| some ·) (Nat.sub_sub ..)

/-- A session that is never told to stop is the same whenever it is asked. -/
theorem waited_of_none (h : session.patience = none) (checks : Nat) :
    session.waited checks = session := by
  obtain ⟨context, exporting, depth, exports, patience⟩ := session
  cases h
  rfl

/-- Once told to stop, it is told so again and again. -/
theorem waited_of_zero (h : session.patience = some 0) (checks : Nat) :
    session.waited checks = session := by
  obtain ⟨context, exporting, depth, exports, patience⟩ := session
  cases h
  exact congrArg (Session.mk _ _ _ _ <| some ·) (Nat.zero_sub checks)

end Session

namespace Eval

variable {α β : Type}

theorem run_pure (a : α) (session : Session) :
    (pure a : Eval α).run session = (.ok a, session) := rfl

theorem run_throw (e : EvalError) (session : Session) :
    (throw e : Eval α).run session = (.error e, session) := rfl

theorem run_bind (step : Eval α) (next : α → Eval β) (session : Session) :
    (step >>= next).run session = match step.run session with
      | (.ok a, after) => (next a).run after
      | (.error e, after) => (.error e, after) := by
  change (ExceptT.bindCont next (step.run session).1) (step.run session).2 = _
  rcases step.run session with ⟨result, after⟩
  cases result <;> rfl

/-- What ends well has gone through a first part that ended well. -/
theorem of_run_bind {step : Eval α} {next : α → Eval β} {session after : Session} {b : β}
    (h : (step >>= next).run session = (.ok b, after)) :
    ∃ a between, step.run session = (.ok a, between) ∧ (next a).run between = (.ok b, after) := by
  rw [run_bind] at h
  rcases hrun : step.run session with ⟨_ | a, between⟩
  · rw [hrun] at h
    cases h
  · rw [hrun] at h
    exact ⟨a, between, rfl, h⟩

theorem run_get_bind (next : Session → Eval α) (session : Session) :
    ((get : Eval Session) >>= next).run session = (next session).run session := rfl

theorem run_tryCatch (step : Eval α) (handle : EvalError → Eval α) (session : Session) :
    (tryCatch step handle).run session = match step.run session with
      | (.ok a, after) => (.ok a, after)
      | (.error e, after) => (handle e).run after := by
  unfold run ExceptT.run StateT.run
  simp only [tryCatch, tryCatchThe, MonadExceptOf.tryCatch, ExceptT.tryCatch, ExceptT.mk, bind,
    StateT.bind]
  cases step session with
  | mk result after => cases result <;> rfl

/-- A step with something done after it whether it fails or not. -/
theorem run_restoring (step : Eval α) (restore : Session → Session) (session : Session) :
    (tryCatch (do let a ← step; modify restore; Pure.pure a)
      fun e => do (modify restore : Eval Unit); throw e : Eval α).run session =
        ((step.run session).1, restore (step.run session).2) := by
  rw [run_tryCatch, run_bind]
  rcases step.run session with ⟨result, after⟩
  cases result <;> rfl

theorem run_inScope (scope : Context) (step : Eval α) (s : Session) :
    (Eval.inScope scope step).run s =
      ((step.run { s with context := scope, exporting := false }).1,
        { (step.run { s with context := scope, exporting := false }).2 with
          context := s.context, exporting := s.exporting }) :=
  run_restoring step (fun inner => { inner with context := s.context, exporting := s.exporting })
    { s with context := scope, exporting := false }

theorem run_deeper (step : Eval α) (s : Session) :
    (Eval.deeper step).run s =
      ((step.run { s with depth := s.depth + 1 }).1,
        { (step.run { s with depth := s.depth + 1 }).2 with
          depth := (step.run { s with depth := s.depth + 1 }).2.depth - 1 }) :=
  run_restoring step (fun inner => { inner with depth := inner.depth - 1 })
    { s with depth := s.depth + 1 }

theorem run_checkInterrupt (session : Session) : Eval.checkInterrupt.run session =
    (if session.patience = some 0 then .error .interrupted else .ok (), session.waited 1) := by
  rw [checkInterrupt, run_get_bind, run_bind]
  change (if session.patience = some 0 then throw .interrupted else pure () : Eval Unit).run _ = _
  split <;> rfl

theorem run_checkInterrupt_of_none {session : Session} (h : session.patience = none) :
    Eval.checkInterrupt.run session = (.ok (), session) := by
  rw [run_checkInterrupt, h, if_neg nofun, Session.waited_of_none h]

theorem run_checkInterrupt_of_zero {session : Session} (h : session.patience = some 0) :
    Eval.checkInterrupt.run session = (.error .interrupted, session) := by
  rw [run_checkInterrupt, if_pos h, Session.waited_of_zero h]

/-- Two steps that have the same result in sessions that are alike, and leave sessions that are. -/
def Respects (alike : Session → Session → Prop) (step step' : Eval α) : Prop :=
  ∀ s t, alike s t → (step.run s).1 = (step'.run t).1 ∧ alike (step.run s).2 (step'.run t).2

namespace Respects

variable {alike : Session → Session → Prop}

theorem pure (a : α) : Respects alike (Pure.pure a) (Pure.pure a) := fun _ _ h => ⟨rfl, h⟩

theorem throw (e : EvalError) : Respects alike (throw e : Eval α) (throw e) :=
  fun _ _ h => ⟨rfl, h⟩

theorem bind {step step' : Eval α} {next next' : α → Eval β} (hstep : Respects alike step step')
    (hnext : ∀ a, Respects alike (next a) (next' a)) :
    Respects alike (step >>= next) (step' >>= next') := by
  intro s t h
  obtain ⟨hresult, hafter⟩ := hstep s t h
  rw [run_bind, run_bind]
  rcases hrun : step.run s with ⟨result, after⟩
  rcases hrun' : step'.run t with ⟨result', after'⟩
  rw [hrun, hrun'] at hresult hafter
  subst hresult
  cases result with
  | error e => exact ⟨rfl, hafter⟩
  | ok a => exact hnext a after after' hafter

theorem get_bind {next next' : Session → Eval α}
    (hnext : ∀ s t, alike s t → Respects alike (next s) (next' t)) :
    Respects alike ((get : Eval Session) >>= next) ((get : Eval Session) >>= next') := by
  intro s t h
  rw [run_get_bind, run_get_bind]
  exact hnext s t h s t h

theorem checkInterrupt
    (h : ∀ s t, alike s t → s.patience = t.patience ∧ alike (s.waited 1) (t.waited 1)) :
    Respects alike Eval.checkInterrupt Eval.checkInterrupt := by
  intro s t halike
  obtain ⟨hpatience, hwaited⟩ := h s t halike
  rw [run_checkInterrupt, run_checkInterrupt, hpatience]
  exact ⟨rfl, hwaited⟩

end Respects
end Eval

namespace Value

theorem ofInt_ne_interrupted (n : Int) (pos : Position) : ofInt n pos ≠ .error .interrupted := by
  unfold ofInt
  split <;> exact nofun

/-- No operator fails as if it had been interrupted. -/
theorem unary_ne_interrupted (op : String) (operand : Value) (pos : Position) :
    unary op operand pos ≠ .error .interrupted := by
  unfold unary
  split
  · unfold Value.not
    split <;> exact nofun
  · unfold negate
    split
    · exact ofInt_ne_interrupted _ _
    · exact nofun
  · exact nofun

theorem map_ne_interrupted {α β : Type} {result : Except EvalError α} {f : α → β}
    (h : result ≠ .error .interrupted) : result.map f ≠ .error .interrupted := by
  cases result with
  | ok a => exact nofun
  | error e =>
    intro heq
    cases heq
    exact h rfl

theorem bind_ne_interrupted {α β : Type} {result : Except EvalError α}
    {f : α → Except EvalError β} (h : result ≠ .error .interrupted)
    (hf : ∀ a, f a ≠ .error .interrupted) : result >>= f ≠ .error .interrupted := by
  cases result with
  | ok a => exact hf a
  | error e =>
    intro heq
    cases heq
    exact h rfl

theorem intOperands_ne_interrupted (op : String) (left right : Value) (pos : Position) :
    intOperands op left right pos ≠ .error .interrupted := by
  unfold intOperands
  split <;> exact nofun

theorem relate_ne_interrupted (op : String) (left right : Value) (pos : Position) :
    relate op left right pos ≠ .error .interrupted := by
  have hequality : equality op left right pos ≠ .error .interrupted := by
    unfold equality
    split <;> exact nofun
  have hcomparison : comparison op left right pos ≠ .error .interrupted := by
    unfold comparison
    split <;> exact nofun
  unfold relate
  split
  · exact map_ne_interrupted hequality
  · exact map_ne_interrupted hequality
  · exact map_ne_interrupted hcomparison
  · exact map_ne_interrupted hcomparison
  · exact map_ne_interrupted hcomparison
  · exact map_ne_interrupted hcomparison
  · exact nofun

theorem binary_ne_interrupted (op : String) (left right : Value) (pos : Position) :
    binary op left right pos ≠ .error .interrupted := by
  have hints := fun op => intOperands_ne_interrupted op left right pos
  have hbools : ∀ op, boolOperands op left right pos ≠ .error .interrupted := by
    intro op
    unfold boolOperands
    split <;> exact nofun
  unfold binary
  split
  · unfold add
    split
    · exact ofInt_ne_interrupted _ _
    · exact nofun
    · exact nofun
    · exact nofun
    · exact nofun
  · exact bind_ne_interrupted (hints "-") fun _ => ofInt_ne_interrupted _ _
  · exact bind_ne_interrupted (hints "*") fun _ => ofInt_ne_interrupted _ _
  · refine bind_ne_interrupted (hints "/") fun (a, b) => ?_
    change (if b = 0 then _ else _) ≠ _
    split
    · exact nofun
    · exact ofInt_ne_interrupted _ _
  · refine bind_ne_interrupted (hints "%") fun (a, b) => ?_
    change (if b = 0 then _ else _) ≠ _
    split
    · exact nofun
    · exact bind_ne_interrupted (ofInt_ne_interrupted _ _) fun _ => ofInt_ne_interrupted _ _
  · exact map_ne_interrupted (hbools "&&")
  · exact map_ne_interrupted (hbools "||")
  · exact relate_ne_interrupted op left right pos

end Value

namespace Evaluation

/-- Behind the name of a function stands one of those that can be called, or nothing at all. -/
theorem callee_cases (world : World) (name : String) (count : Nat) (pos : Position) :
    (∃ builtin, world.builtins.get? name = some builtin ∧
        callee world name count pos = pure builtin) ∨
      ∃ e, e ≠ .interrupted ∧ callee world name count pos = throw e := by
  unfold callee
  split
  · exact .inr ⟨.unknownFunction name pos, nofun, rfl⟩
  · next builtin hget =>
    split
    · exact .inl ⟨builtin, hget, rfl⟩
    · next arity _ =>
      split
      · exact .inl ⟨builtin, hget, rfl⟩
      · exact .inr ⟨.invalidArgument builtin.name (.count arity count), nofun, rfl⟩

end Evaluation

def Node.NamesOnly (names : List String → Prop) : Node → Prop :=
  Throughout fun node => ∀ parts, node.kind = .varName parts → names parts

theorem Node.NamesOnly.child {names : List String → Prop} {node child : Node}
    (h : node.NamesOnly names) (hmem : child ∈ node.children) : child.NamesOnly names :=
  Throughout.child h hmem

theorem Node.namesOnly_true (node : Node) : node.NamesOnly fun _ => True :=
  fun _ _ _ _ => trivial

namespace Evaluation

/-- A relation between the steps of two evaluations, inherited by the evaluation of nodes from what
it asks of the session and from the functions that can be called. The two may differ in their
templates, in what is listed and in what inclusion means. Only some names may be looked up. -/
structure Relates (world world' : World) (document : Document) (includer includer' : Includer)
    (names : List String → Prop) (R : (α : Type) → Eval α → Eval α → Prop) : Prop where
  builtins : world'.builtins = world.builtins
  pure : ∀ {α : Type} (a : α), R α (pure a) (pure a)
  throw : ∀ {α : Type} {e : EvalError}, e ≠ .interrupted → R α (throw e) (throw e)
  bind : ∀ {α β : Type} {step step' : Eval α} {next next' : α → Eval β}, R α step step' →
    (∀ a, R β (next a) (next' a)) → R β (step >>= next) (step' >>= next')
  checkInterrupt : R Unit Eval.checkInterrupt Eval.checkInterrupt
  lookup : ∀ parts : List String, names parts → R (Option Value)
    (do return (← get).context.at? parts) (do return (← get).context.at? parts)
  assign : ∀ (target : List String) (value : Value),
    R Unit (Eval.assign document target value) (Eval.assign document target value)
  iteration : ∀ (var : String) (item : Value) {body body' : Eval String}, R String body body' →
    R String (do
      let scope := (← get).context.merge (.ofList [(var, item)])
      Eval.inScope scope body) (do
      let scope := (← get).context.merge (.ofList [(var, item)])
      Eval.inScope scope body')
  exported : ∀ path : String, R (List Context) (exported world path) (exported world' path)
  call : ∀ {name : String} {builtin : Builtin}, world.builtins.get? name = some builtin →
    ∀ args : List Value, R Value (builtin.run ⟨document, Evaluation.exported world, includer⟩ args)
      (builtin.run ⟨document, Evaluation.exported world', includer'⟩ args)

namespace Relates

variable {world world' : World} {document : Document} {includer includer' : Includer}
  {names : List String → Prop} {R : (α : Type) → Eval α → Eval α → Prop} {α : Type}
  (h : Relates world world' document includer includer' names R)

include h

theorem ofExcept {result : Except EvalError α} (hresult : result ≠ .error .interrupted) :
    R α (Eval.ofExcept result) (Eval.ofExcept result) := by
  cases result with
  | ok a => exact h.pure a
  | error e => exact h.throw fun he => hresult (congrArg Except.error he)

section

variable {step step' : Eval (Option Value)}

theorem needValue (hstep : R _ step step') (pos : Position) :
    R _ (needValue pos step) (needValue pos step') := by
  refine h.bind hstep fun result => ?_
  cases result with
  | none => exact h.throw nofun
  | some value => exact h.pure value

theorem toText (hstep : R _ step step') : R _ (toText step) (toText step') := by
  refine h.bind hstep fun result => ?_
  cases result <;> exact h.pure _

theorem needBool (hstep : R _ step step') (pos : Position) :
    R _ (needBool pos step) (needBool pos step') := by
  refine h.bind (h.needValue hstep pos) fun value => ?_
  split
  · exact h.pure _
  · exact h.throw nofun

end

theorem loopItems (pos : Position) (value : Value) :
    R _ (loopItems world pos value) (loopItems world' pos value) := by
  unfold Evaluation.loopItems
  split
  · exact h.pure _
  · exact h.bind (h.exported _) fun _ => h.pure _
  · exact h.throw nofun

theorem eachItem {body body' : Eval String} (hbody : R _ body body') (var : String)
    (items : List Value) : R _ (eachItem var body items) (eachItem var body' items) := by
  induction items with
  | nil => exact h.pure []
  | cons item items ih =>
    refine h.bind h.checkInterrupt fun _ => ?_
    have hrest (text : String) : R _ (do return text :: (← Evaluation.eachItem var body items))
        (do return text :: (← Evaluation.eachItem var body' items)) :=
      h.bind ih fun texts => h.pure _
    exact (h.bind (h.iteration var item hbody) hrest :)

theorem callee {name : String} {count : Nat} {pos : Position} {next next' : Builtin → Eval α}
    (hnext : ∀ builtin, world.builtins.get? name = some builtin →
      R α (next builtin) (next' builtin)) :
    R α (callee world name count pos >>= next) (callee world' name count pos >>= next') := by
  have hsame : Evaluation.callee world' = Evaluation.callee world := by
    unfold Evaluation.callee
    rw [h.builtins]
  rw [hsame]
  rcases callee_cases world name count pos with ⟨builtin, hget, heq⟩ | ⟨e, he, heq⟩
  · rw [heq, pure_bind, pure_bind]
    exact hnext builtin hget
  · rw [heq]
    exact h.throw he

theorem evalStatements {statements : List Node} (hnodes : ∀ node ∈ statements,
      R _ (evalNode world document includer node) (evalNode world' document includer' node)) :
    R _ (evalStatements world document includer statements)
      (evalStatements world' document includer' statements) := by
  induction statements with
  | nil =>
    rw [Evaluation.evalStatements, Evaluation.evalStatements]
    exact h.pure ""
  | cons statement rest ih =>
    have hfirst := hnodes statement List.mem_cons_self
    cases rest with
    | nil =>
      rw [Evaluation.evalStatements, Evaluation.evalStatements]
      exact h.bind hfirst fun value => h.pure _
    | cons next rest =>
      have hne : next :: rest ≠ [] := List.cons_ne_nil _ _
      rw [evalStatements.eq_3 _ _ _ _ _ hne, evalStatements.eq_3 _ _ _ _ _ hne]
      exact h.bind hfirst fun _ => ih fun node hnode => hnodes node (List.mem_cons_of_mem _ hnode)

theorem renderNodes {nodes : List Node} (hnodes : ∀ node ∈ nodes,
      R _ (evalNode world document includer node) (evalNode world' document includer' node)) :
    R _ (renderNodes world document includer nodes)
      (renderNodes world' document includer' nodes) := by
  induction nodes with
  | nil =>
    rw [Evaluation.renderNodes, Evaluation.renderNodes]
    exact h.pure ""
  | cons node rest ih =>
    rw [Evaluation.renderNodes, Evaluation.renderNodes]
    refine h.bind (h.toText (hnodes node List.mem_cons_self)) fun text => ?_
    exact h.bind (ih fun other hother => hnodes other (List.mem_cons_of_mem _ hother)) fun _ =>
      h.pure _

theorem evalArgs {args : List Node}
    (hnodes : ∀ node ∈ args,
      R _ (evalNode world document includer node) (evalNode world' document includer' node)) :
    R _ (evalArgs world document includer args) (evalArgs world' document includer' args) := by
  induction args with
  | nil =>
    rw [Evaluation.evalArgs, Evaluation.evalArgs]
    exact h.pure []
  | cons arg rest ih =>
    rw [Evaluation.evalArgs, Evaluation.evalArgs]
    refine h.bind (h.needValue (hnodes arg List.mem_cons_self) arg.pos) fun value => ?_
    exact h.bind (ih fun other hother => hnodes other (List.mem_cons_of_mem _ hother)) fun _ =>
      h.pure _

theorem evalBranches {branches : List Node} {otherwise otherwise' : Eval String}
    (hnodes : ∀ node ∈ branches,
      R _ (evalNode world document includer node) (evalNode world' document includer' node))
    (hotherwise : R _ otherwise otherwise') :
    R _ (evalBranches world document includer branches otherwise)
      (evalBranches world' document includer' branches otherwise') := by
  induction hlength : branches.length using Nat.strongRecOn generalizing branches with
  | _ n ih =>
    match branches with
    | [] => exact hotherwise
    | [single] => exact hotherwise
    | condition :: body :: rest =>
      rw [Evaluation.evalBranches, Evaluation.evalBranches]
      refine h.bind (h.needBool (hnodes condition List.mem_cons_self) _) fun holds => ?_
      cases holds with
      | true => exact h.toText (hnodes body (List.mem_cons_of_mem _ List.mem_cons_self))
      | false =>
        refine ih rest.length ?_ (fun node hnode => ?_) rfl
        · rw [← hlength, List.length_cons, List.length_cons]
          omega
        · exact hnodes node (List.mem_cons_of_mem _ (List.mem_cons_of_mem _ hnode))

theorem evalNode {node : Node} (hnames : node.NamesOnly names) :
    R _ (evalNode world document includer node) (evalNode world' document includer' node) := by
  induction hsize : sizeOf node using Nat.strongRecOn generalizing node with
  | _ n ih =>
    have hchild : ∀ child ∈ node.children,
        R _ (Evaluation.evalNode world document includer child)
          (Evaluation.evalNode world' document includer' child) := by
      intro child hmem
      have hlt := Node.sizeOf_lt_of_mem hmem
      exact ih (sizeOf child) (by omega) (hnames.child hmem) rfl
    have hpart : ∀ child ∈ node.children, ∀ part ∈ child.children,
        R _ (Evaluation.evalNode world document includer part)
          (Evaluation.evalNode world' document includer' part) := by
      intro child hmem part hpart
      have hlt := Node.sizeOf_lt_of_mem hmem
      have hlt' := Node.sizeOf_lt_of_mem hpart
      exact ih (sizeOf part) (by omega) ((hnames.child hmem).child hpart) rfl
    rw [evalNode.eq_def, evalNode.eq_def world']
    refine h.bind h.checkInterrupt fun _ => ?_
    -- the form of the node is the same on both sides, so one split goes through both evaluations
    split
    · exact h.pure _
    · exact h.pure _
    · exact h.pure _
    · exact h.pure _
    · exact h.pure _
    · exact h.pure _
    · next parts _ pos =>
      -- the lookup is a step of its own, whose result decides between the value and the failure
      have hfound (found : Option Value) : R (Option Value)
          (found.elim (MonadExcept.throw (.undefinedVariable (".".intercalate parts) pos))
            fun value => return some value)
          (found.elim (MonadExcept.throw (.undefinedVariable (".".intercalate parts) pos))
            fun value => return some value) := by
        cases found with
        | none => exact h.throw EvalError.noConfusion
        | some value => exact h.pure _
      have hlookup := h.bind (h.lookup parts (hnames _ (.self _) parts rfl)) hfound
      rw [bind_assoc] at hlookup
      refine (congrArg (fun step => R _ step step) (bind_congr fun session => ?_)).mp hlookup
      rw [pure_bind]
      cases session.context.at? parts <;> rfl
    · next kind statements pos _ =>
      have hall := hpart ⟨kind, statements, pos⟩ (by simp)
      exact h.bind (h.evalStatements hall) fun _ => h.pure _
    · exact h.bind (h.evalStatements hchild) fun _ => h.pure _
    · next expr _ => exact h.bind (h.needValue (hchild expr (by simp)) _) fun _ => h.pure _
    · exact h.bind (h.renderNodes hchild) fun _ => h.pure _
    · next _ condition body kind branches pos _ _ =>
      have hbranches := hpart ⟨kind, branches, pos⟩ (by simp)
      refine h.bind (h.needBool (hchild condition (by simp)) _) fun holds => ?_
      split
      · exact h.bind (h.toText (hchild body (by simp))) fun _ => h.pure _
      · exact h.bind (h.evalBranches hbranches (h.pure "")) fun _ => h.pure _
    · next _ condition body kind branches pos kind' word elseBody pos' _ _ =>
      have hbranches := hpart ⟨kind, branches, pos⟩ (by simp)
      have helse := hpart ⟨kind', [word, elseBody], pos'⟩ (by simp) elseBody (by simp)
      refine h.bind (h.needBool (hchild condition (by simp)) _) fun holds => ?_
      split
      · exact h.bind (h.toText (hchild body (by simp))) fun _ => h.pure _
      · exact h.bind (h.evalBranches hbranches (h.toText helse)) fun _ => h.pure _
    · next _ body _ => exact h.bind (h.toText (hchild body (by simp))) fun _ => h.pure _
    · next var _ _ input body pos =>
      have hbody := h.toText (hchild body (by simp))
      have hinput := hchild input (by simp)
      have hloop (items : List Value) : R _ (do
          let texts ← Evaluation.eachItem var
            (Evaluation.toText (Evaluation.evalNode world document includer body)) items
          return some (Value.str ("\n".intercalate texts))) (do
          let texts ← Evaluation.eachItem var
            (Evaluation.toText (Evaluation.evalNode world' document includer' body)) items
          return some (Value.str ("\n".intercalate texts))) :=
        h.bind (h.eachItem hbody var items) fun _ => h.pure _
      dsimp only
      split
      · exact h.bind (h.loopItems pos _) hloop
      · refine h.bind (h.needValue hinput _) fun value => ?_
        exact h.bind (h.loopItems pos value) hloop
    · next name _ _ kind args pos' pos =>
      have hargs := h.evalArgs (hpart ⟨kind, args, pos'⟩ (by simp))
      refine h.callee fun builtin hget => h.bind hargs fun values => ?_
      exact h.bind (h.call hget _) fun _ => h.pure _
    · next target _ _ value _ =>
      refine h.bind (h.needValue (hchild value (by simp)) _) fun result => ?_
      exact h.bind (h.assign target result) fun _ => h.pure _
    · next op _ _ operand pos =>
      refine h.bind (h.needValue (hchild operand (by simp)) _) fun value => ?_
      exact h.bind (h.ofExcept (Value.unary_ne_interrupted op value pos)) fun _ => h.pure _
    · next _ _ left op _ _ right pos =>
      refine h.bind (h.needValue (hchild left (by simp)) _) fun lhs => ?_
      refine h.bind (h.needValue (hchild right (by simp)) _) fun rhs => ?_
      exact h.bind (h.ofExcept (Value.binary_ne_interrupted op lhs rhs pos)) fun _ => h.pure _
    · exact h.pure _

end Relates

/-- A property of steps that the evaluation of nodes inherits from what it asks of the session and
from the functions that can be called. -/
structure Inherits (world : World) (document : Document) (includer : Includer)
    (P : (α : Type) → Eval α → Prop) : Prop where
  pure : ∀ {α : Type} (a : α), P α (pure a)
  throw : ∀ {α : Type} {e : EvalError}, e ≠ .interrupted → P α (throw e)
  bind : ∀ {α β : Type} {step : Eval α} {next : α → Eval β}, P α step → (∀ a, P β (next a)) →
    P β (step >>= next)
  checkInterrupt : P Unit Eval.checkInterrupt
  lookup : ∀ parts : List String, P (Option Value) do return (← get).context.at? parts
  assign : ∀ (target : List String) (value : Value), P Unit (Eval.assign document target value)
  iteration : ∀ (var : String) (item : Value) {body : Eval String}, P String body → P String do
    let scope := (← get).context.merge (.ofList [(var, item)])
    Eval.inScope scope body
  exported : ∀ path : String, P (List Context) (exported world path)
  call : ∀ {name : String} {builtin : Builtin}, world.builtins.get? name = some builtin →
    ∀ args : List Value, P Value (builtin.run ⟨document, Evaluation.exported world, includer⟩ args)

namespace Inherits

variable {world : World} {document : Document} {includer : Includer}
  {P : (α : Type) → Eval α → Prop}

/-- A property is a relation that looks at the first of the two evaluations alone. -/
theorem relates (h : Inherits world document includer P) :
    Relates world world document includer includer (fun _ => True) fun α step _ => P α step :=
  { h with
    builtins := rfl
    bind := fun hstep hnext => h.bind hstep hnext
    lookup := fun parts _ => h.lookup parts
    iteration := fun var item _ _ hbody => h.iteration var item hbody }

theorem toText (h : Inherits world document includer P) {step : Eval (Option Value)}
    (hstep : P _ step) : P _ (toText step) :=
  @Relates.toText _ _ _ _ _ _ _ h.relates step step hstep

theorem evalNode (h : Inherits world document includer P) (node : Node) :
    P _ (evalNode world document includer node) :=
  h.relates.evalNode node.namesOnly_true

theorem renderNodes (h : Inherits world document includer P) (nodes : List Node) :
    P _ (renderNodes world document includer nodes) :=
  h.relates.renderNodes fun node _ => h.evalNode node

end Inherits
end Evaluation

/-- What holds of each function that every template can call holds of what stands behind a name. -/
theorem Builtins.of_prelude {P : Builtin → Prop}
    (h : ∀ builtin ∈ [Builtin.print, Builtin.len, Builtin.template, Builtin.paginate,
      Builtin.pagesBefore, Builtin.pagesAfter], P builtin)
    {name : String} {builtin : Builtin} (hget : prelude.get? name = some builtin) : P builtin := by
  have hfunctions : prelude.functions.map Prod.snd = [Builtin.print, Builtin.len,
      Builtin.template, Builtin.paginate, Builtin.pagesBefore, Builtin.pagesAfter] := rfl
  obtain ⟨front, back, hsplit, _⟩ := List.lookup_eq_some_iff.1 hget
  refine h builtin ?_
  rw [← hfunctions, hsplit, List.map_append]
  exact List.mem_append_right _ List.mem_cons_self

namespace Builtin

theorem intArg_ne_interrupted (function : String) (args : List Value) (index : Nat) :
    intArg function args index ≠ .error .interrupted := by
  unfold intArg
  split
  · exact nofun
  · split <;> exact nofun

theorem strArg_ne_interrupted (function : String) (args : List Value) (index : Nat) :
    strArg function args index ≠ .error .interrupted := by
  unfold strArg
  split <;> exact nofun

end Builtin

/-- A relation between the steps of two evaluations, inherited by functions from what they may ask
for. The scopes that they find and pass on need only be alike. -/
structure Host.Relates (host host' : Host) (alike : Context → Context → Prop)
    (R : (α : Type) → Eval α → Eval α → Prop) : Prop where
  document : host'.document = host.document
  pure : ∀ {α : Type} (a : α), R α (pure a) (pure a)
  throw : ∀ {α : Type} {e : EvalError}, e ≠ .interrupted → R α (throw e) (throw e)
  bind : ∀ {α β : Type} {step step' : Eval α} {next next' : α → Eval β}, R α step step' →
    (∀ a, R β (next a) (next' a)) → R β (step >>= next) (step' >>= next')
  scope : ∀ {α : Type} {next next' : Context → Eval α},
    (∀ scope scope', alike scope scope' → R α (next scope) (next' scope')) →
    R α (do next (← get).context) (do next' (← get).context)
  merge : ∀ {scope scope' : Context} (known : Context), alike scope scope' →
    alike (scope.merge known) (scope'.merge known)
  exported : ∀ path : String, R (List Context) (host.exported path) (host'.exported path)
  inclusion : ∀ (key : String) {scope scope' : Context}, alike scope scope' →
    R String (host.inclusion key scope) (host'.inclusion key scope')

namespace Host.Relates

variable {host host' : Host} {alike : Context → Context → Prop}
  {R : (α : Type) → Eval α → Eval α → Prop} {α : Type} (h : host.Relates host' alike R)

include h

theorem ofExcept {β : Type} {result : Except EvalError β} {next next' : β → Eval α}
    (hresult : result ≠ .error .interrupted) (hnext : ∀ b, R α (next b) (next' b)) :
    R α (Eval.ofExcept result >>= next) (Eval.ofExcept result >>= next') := by
  cases result with
  | ok b => exact h.bind (h.pure b) hnext
  | error e => exact h.bind (h.throw fun he => hresult (congrArg Except.error he)) hnext

theorem intArg {function : String} {args : List Value} {index : Nat}
    {next next' : Int64 → Eval α} (hnext : ∀ n, R α (next n) (next' n)) :
    R α (Eval.ofExcept (Builtin.intArg function args index) >>= next)
      (Eval.ofExcept (Builtin.intArg function args index) >>= next') :=
  h.ofExcept (Builtin.intArg_ne_interrupted function args index) hnext

theorem strArg {function : String} {args : List Value} {index : Nat}
    {next next' : String → Eval α} (hnext : ∀ s, R α (next s) (next' s)) :
    R α (Eval.ofExcept (Builtin.strArg function args index) >>= next)
      (Eval.ofExcept (Builtin.strArg function args index) >>= next') :=
  h.ofExcept (Builtin.strArg_ne_interrupted function args index) hnext

theorem print (args : List Value) :
    R Value (Builtin.print.run host args) (Builtin.print.run host' args) :=
  h.pure _

theorem len (args : List Value) :
    R Value (Builtin.len.run host args) (Builtin.len.run host' args) := by
  unfold Builtin.len
  dsimp only
  split
  · exact h.pure _
  · exact h.pure _
  · exact h.throw nofun
  · exact h.throw nofun

theorem template (args : List Value) :
    R Value (Builtin.template.run host args) (Builtin.template.run host' args) := by
  refine h.strArg fun key => ?_
  have hincluded (scope scope' : Context) (halike : alike scope scope') :
      R Value (do return .str (← host.inclusion key scope))
        (do return .str (← host'.inclusion key scope')) :=
    h.bind (h.inclusion key halike) fun _ => h.pure _
  exact h.scope hincluded

theorem paginate (args : List Value) :
    R Value (Builtin.paginate.run host args) (Builtin.paginate.run host' args) := by
  refine h.intArg fun page => h.strArg fun contentPath => h.strArg fun key => ?_
  refine h.intArg fun perPage => h.bind (h.exported contentPath) fun contents => ?_
  split
  · exact h.throw nofun
  · next known _ =>
    have hincluded (scope scope' : Context) (halike : alike scope scope') :
        R Value (do return .str (← host.inclusion key (scope.merge known)))
          (do return .str (← host'.inclusion key (scope'.merge known))) :=
      h.bind (h.inclusion key (h.merge known halike)) fun _ => h.pure _
    exact h.scope hincluded

theorem pagesBefore (args : List Value) :
    R Value (Builtin.pagesBefore.run host args) (Builtin.pagesBefore.run host' args) := by
  refine h.intArg fun _ => h.strArg fun _ => h.intArg fun _ => ?_
  rw [h.document]
  exact h.pure _

theorem pagesAfter (args : List Value) :
    R Value (Builtin.pagesAfter.run host args) (Builtin.pagesAfter.run host' args) := by
  refine h.intArg fun _ => h.intArg fun _ => h.strArg fun _ => h.intArg fun _ => ?_
  rw [h.document]
  exact h.pure _

/-- Every function that every template can call inherits the relation. -/
theorem prelude {name : String} {builtin : Builtin}
    (hget : Builtins.prelude.get? name = some builtin) (args : List Value) :
    R Value (builtin.run host args) (builtin.run host' args) := by
  refine @Builtins.of_prelude (fun builtin => R Value (builtin.run host args)
    (builtin.run host' args)) (fun builtin hmem => ?_) name builtin hget
  simp only [List.mem_cons, List.not_mem_nil, or_false] at hmem
  rcases hmem with rfl | rfl | rfl | rfl | rfl | rfl
  · exact h.print args
  · exact h.len args
  · exact h.template args
  · exact h.paginate args
  · exact h.pagesBefore args
  · exact h.pagesAfter args

end Host.Relates

structure Host.Inherits (host : Host) (P : (α : Type) → Eval α → Prop) : Prop where
  pure : ∀ {α : Type} (a : α), P α (pure a)
  throw : ∀ {α : Type} {e : EvalError}, e ≠ .interrupted → P α (throw e)
  bind : ∀ {α β : Type} {step : Eval α} {next : α → Eval β}, P α step → (∀ a, P β (next a)) →
    P β (step >>= next)
  scope : ∀ {α : Type} {next : Context → Eval α}, (∀ scope, P α (next scope)) →
    P α do next (← get).context
  exported : ∀ path : String, P (List Context) (host.exported path)
  inclusion : ∀ (key : String) (scope : Context), P String (host.inclusion key scope)

/-- Every function that every template can call inherits the property. -/
theorem Host.Inherits.prelude {host : Host} {P : (α : Type) → Eval α → Prop} (h : host.Inherits P)
    {name : String} {builtin : Builtin} (hget : Builtins.prelude.get? name = some builtin)
    (args : List Value) : P Value (builtin.run host args) :=
  have hrelates : host.Relates host Eq fun α step _ => P α step :=
    { h with
      document := rfl
      bind := fun hstep hnext => h.bind hstep hnext
      scope := fun hnext => h.scope fun scope => hnext scope scope rfl
      merge := fun known heq => congrArg (Context.merge · known) heq
      inclusion := fun key scope _ _ => h.inclusion key scope }
  hrelates.prelude hget args

end PageTemplate
