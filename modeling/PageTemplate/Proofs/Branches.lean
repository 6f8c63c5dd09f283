import Mathlib
import PageTemplate.Node.View
import PageTemplate.Proofs.ParsedTrees
import PageTemplate.Proofs.Steps

namespace PageTemplate

/-- The branches of a conditional in the order of the source, each a condition with its body, and
the body for the case that none of the conditions holds. -/
structure Conditional where
  branches : List (Node × Node)
  otherwise : Option Node

namespace Conditional

def conditions (conditional : Conditional) : List Node := conditional.branches.map Prod.fst

def HasBranch (conditional : Conditional) (earlier : List Node) (condition body : Node) : Prop :=
  ∃ front later, conditional.branches = front ++ (condition, body) :: later ∧
    front.map Prod.fst = earlier

theorem HasBranch.cons {branches : List (Node × Node)} {otherwise : Option Node}
    {earlier : List Node} {condition body : Node}
    (h : HasBranch ⟨branches, otherwise⟩ earlier condition body) (first : Node × Node) :
    HasBranch ⟨first :: branches, otherwise⟩ (first.1 :: earlier) condition body := by
  obtain ⟨front, later, rfl, rfl⟩ := h
  exact ⟨first :: front, later, rfl, rfl⟩

end Conditional

namespace Node

def unpaired (branches : List (Node × Node)) : List Node :=
  branches.flatMap fun branch => [branch.1, branch.2]

def IsConditional (node : Node) (conditional : Conditional) : Prop :=
  ∃ condition body elseIfs,
    node.view? = some (.ifElse condition body elseIfs conditional.otherwise) ∧
    condition :: body :: elseIfs = unpaired conditional.branches

theorem unpaired_branches {children : List Node} (h : children.length % 2 = 0) :
    unpaired (branches children) = children := by
  induction children using branches.induct with
  | case1 condition body rest ih =>
    rw [List.length_cons, List.length_cons] at h
    rw [branches]
    exact congrArg (fun rest => condition :: body :: rest) (ih (by omega))
  | case2 children hpair =>
    cases children with
    | nil => rfl
    | cons first rest =>
      cases rest with
      | nil => cases h
      | cons second rest => exact absurd rfl (hpair first second rest)

/-- The node behind the view of a conditional is known but for the words in it. -/
theorem view?_eq_ifElse {node condition body : Node} {elseIfs : List Node}
    {otherwise : Option Node} (h : node.view? = some (.ifElse condition body elseIfs otherwise)) :
    (∃ word list final, node = ⟨.ifStatement, [word, condition, body, list, final], node.pos⟩ ∧
      list.children = elseIfs ∧ otherwise = none) ∨
    ∃ word list kind elseWord elseBody elsePos final,
      node = ⟨.ifStatement, [word, condition, body, list,
        ⟨kind, [elseWord, elseBody], elsePos⟩, final], node.pos⟩ ∧
      list.children = elseIfs ∧ otherwise = some elseBody := by
  obtain ⟨kind, children, pos⟩ := node
  unfold view? at h
  split at h
  case h_6 word _ _ list final _ heq =>
    cases h
    cases heq
    exact .inl ⟨word, list, final, rfl, rfl, rfl⟩
  case h_7 word _ _ list kind elseWord elseBody elsePos final _ heq =>
    cases h
    cases heq
    exact .inr ⟨word, list, kind, elseWord, elseBody, elsePos, final, rfl, rfl, rfl⟩
  all_goals simp at h

/-- Nothing is lost when conditions and bodies are paired. -/
theorem WellShaped.unpaired_branches {node : Node} (h : node.WellShaped)
    (hadmits : Role.elseIfList.admits node.kind = true) :
    unpaired (branches node.children) = node.children := by
  have hfits := h _ (.self _)
  obtain ⟨kind, children, pos⟩ := node
  cases kind with
  | elseIfList =>
    refine Node.unpaired_branches ?_
    by_contra hodd
    rw [shapeFault?, NodeKind.roles, if_neg hodd] at hfits
    cases hfits
  | _ => cases hadmits

theorem WellShaped.eq_elseClause {node : Node} (h : node.WellShaped)
    (hadmits : Role.elseClause.admits node.kind = true) :
    ∃ word body, node = ⟨.elseClause, [word, body], node.pos⟩ := by
  have hfits := h _ (.self _)
  obtain ⟨kind, children, pos⟩ := node
  cases kind with
  | elseClause =>
    have hroles : List.Forall₂ _ [Role.keyword "else", .content] children :=
      forall₂_of_fixedRoles hfits rfl
    obtain _ | ⟨-, _ | ⟨-, ⟨⟩⟩⟩ := hroles
    exact ⟨_, _, rfl⟩
  | _ => cases hadmits

/-- What fits the kind of a conditional is one, and it has at least one branch. -/
theorem WellShaped.isConditional {node : Node} (h : node.WellShaped)
    (hkind : node.kind = .ifStatement) :
    ∃ conditional, node.IsConditional conditional ∧ conditional.branches ≠ [] := by
  have hfits := h _ (.self _)
  obtain ⟨kind, children, pos⟩ := node
  obtain rfl : kind = .ifStatement := hkind
  have hlists {list : Node} (hmem : list ∈ children)
      (hadmits : Role.elseIfList.admits list.kind = true) :
      unpaired (branches list.children) = list.children :=
    WellShaped.unpaired_branches (h.child hmem) hadmits
  by_cases hfive : children.length = 5
  · have hroles := forall₂_of_roles hfits (if_pos hfive) hfive.symm
    obtain _ | ⟨-, _ | ⟨-, _ | ⟨-, _ | ⟨hlist, _ | ⟨-, ⟨⟩⟩⟩⟩⟩⟩ := hroles
    next word condition body list final =>
      refine ⟨⟨(condition, body) :: branches list.children, none⟩,
        ⟨condition, body, list.children, rfl, ?_⟩, List.cons_ne_nil _ _⟩
      exact congrArg (fun rest => condition :: body :: rest) (hlists (by simp) hlist).symm
  · by_cases hsix : children.length = 6
    · have hroles := forall₂_of_roles hfits ((if_neg hfive).trans (if_pos hsix)) hsix.symm
      obtain _ | ⟨-, _ | ⟨-, _ | ⟨-, _ | ⟨hlist, _ | ⟨helse, _ | ⟨-, ⟨⟩⟩⟩⟩⟩⟩⟩ := hroles
      next word condition body list last final =>
        obtain ⟨elseWord, elseBody, hlast⟩ := (h.child (by simp)).eq_elseClause helse
        refine ⟨⟨(condition, body) :: branches list.children, some elseBody⟩,
          ⟨condition, body, list.children, ?_, ?_⟩, List.cons_ne_nil _ _⟩
        · rw [hlast]
          rfl
        · exact congrArg (fun rest => condition :: body :: rest) (hlists (by simp) hlist).symm
    · -- no other number of children fits
      have hroles : NodeKind.roles .ifStatement children.length =
          .error (.ifChildCount children.length) := (if_neg hfive).trans (if_neg hsix)
      rw [shapeFault?, hroles] at hfits
      cases hfits

end Node

namespace Evaluation

variable (world : World) (document : Document) (includer : Includer)

def evalValue (node : Node) : Eval Value :=
  needValue node.pos (evalNode world document includer node)

inductive Rejects : Session → List Node → Session → Prop
  | nil (session : Session) : Rejects session [] session
  | cons {before between after : Session} {condition : Node} {value : Value} {rest : List Node} :
    (evalValue world document includer condition).run before = (.ok value, between) →
    value.coerceBool? = some false → Rejects between rest after →
    Rejects before (condition :: rest) after

/-- How the evaluation of a conditional ends. The conditions are evaluated in their order up to one
that holds, and then its body; up to one that fails or is no truth value; or all of them, and then
the last body if there is one. Nothing else is evaluated. -/
inductive Ends (session : Session) (conditional : Conditional) :
    Except EvalError String × Session → Prop
  | taken {earlier : List Node} {condition body : Node} {value : Value}
    {between decided : Session} :
    conditional.HasBranch earlier condition body →
    Rejects world document includer session earlier between →
    (evalValue world document includer condition).run between = (.ok value, decided) →
    value.coerceBool? = some true →
    Ends session conditional ((toText (evalNode world document includer body)).run decided)
  | failed {earlier : List Node} {condition body : Node} {e : EvalError}
    {between stopped : Session} :
    conditional.HasBranch earlier condition body →
    Rejects world document includer session earlier between →
    (evalValue world document includer condition).run between = (.error e, stopped) →
    Ends session conditional (.error e, stopped)
  | unsuitable {earlier : List Node} {condition body : Node} {value : Value}
    {between stopped : Session} :
    conditional.HasBranch earlier condition body →
    Rejects world document includer session earlier between →
    (evalValue world document includer condition).run between = (.ok value, stopped) →
    value.coerceBool? = none →
    Ends session conditional (.error (.conditionType value.type condition.pos), stopped)
  | untaken {body : Node} {between : Session} :
    conditional.otherwise = some body →
    Rejects world document includer session conditional.conditions between →
    Ends session conditional ((toText (evalNode world document includer body)).run between)
  | empty {between : Session} :
    conditional.otherwise = none →
    Rejects world document includer session conditional.conditions between →
    Ends session conditional (.ok "", between)

/-- A second conditional in place of a first one, with the same conditions up to the one that
decides, and with the same body if one is taken. Other bodies and later branches may differ. -/
inductive DecidesAlike (session : Session) (first second : Conditional) : Prop
  | taken {earlier : List Node} {condition body : Node} {value : Value}
    {between decided : Session} :
    first.HasBranch earlier condition body → second.HasBranch earlier condition body →
    Rejects world document includer session earlier between →
    (evalValue world document includer condition).run between = (.ok value, decided) →
    value.coerceBool? = some true → DecidesAlike session first second
  | stopped {earlier : List Node} {condition body body' : Node}
    {result : Except EvalError Value} {between stopped : Session} :
    first.HasBranch earlier condition body → second.HasBranch earlier condition body' →
    Rejects world document includer session earlier between →
    (evalValue world document includer condition).run between = (result, stopped) →
    (∀ value, result = .ok value → value.coerceBool? = none) → DecidesAlike session first second
  | untaken {between : Session} :
    second.conditions = first.conditions → second.otherwise = first.otherwise →
    Rejects world document includer session first.conditions between →
    DecidesAlike session first second

def lastResort (conditional : Conditional) : Eval String :=
  conditional.otherwise.elim (pure "") fun body => toText (evalNode world document includer body)

variable {world : World} {document : Document} {includer : Includer}
  {session between stopped after : Session} {condition body : Node} {value : Value}
  {conditional : Conditional}

section

variable {holds : Bool} {e : EvalError}

theorem run_needBool_of_some
    (hvalue : (evalValue world document includer condition).run session = (.ok value, after))
    (hholds : value.coerceBool? = some holds) :
    (needBool condition.pos (evalNode world document includer condition)).run session =
      (.ok holds, after) := by
  unfold evalValue at hvalue
  rw [needBool, Eval.run_bind, hvalue]
  dsimp only
  rw [hholds]
  rfl

/-- A condition that is no truth value fails, after it has been evaluated. -/
theorem run_needBool_of_none
    (hvalue : (evalValue world document includer condition).run session = (.ok value, after))
    (hholds : value.coerceBool? = none) :
    (needBool condition.pos (evalNode world document includer condition)).run session =
      (.error (.conditionType value.type condition.pos), after) := by
  unfold evalValue at hvalue
  rw [needBool, Eval.run_bind, hvalue]
  dsimp only
  rw [hholds]
  rfl

theorem run_needBool_of_error
    (hvalue : (evalValue world document includer condition).run session = (.error e, after)) :
    (needBool condition.pos (evalNode world document includer condition)).run session =
      (.error e, after) := by
  unfold evalValue at hvalue
  rw [needBool, Eval.run_bind, hvalue]

/-- A condition decides between its body and the branches behind it. -/
theorem run_evalBranches_of_ok
    (hcondition : (needBool condition.pos (evalNode world document includer condition)).run
      session = (.ok holds, after)) (rest : List Node) (otherwise : Eval String) :
    (evalBranches world document includer (condition :: body :: rest) otherwise).run session =
      (if holds then toText (evalNode world document includer body)
        else evalBranches world document includer rest otherwise).run after := by
  rw [evalBranches, Eval.run_bind, hcondition]

theorem run_evalBranches_of_error
    (hcondition : (needBool condition.pos (evalNode world document includer condition)).run
      session = (.error e, after)) (rest : List Node) (otherwise : Eval String) :
    (evalBranches world document includer (condition :: body :: rest) otherwise).run session =
      (.error e, after) := by
  rw [evalBranches, Eval.run_bind, hcondition]

end

/-- Evaluation goes on after conditions that do not hold as if there were no branches of theirs. -/
theorem Rejects.run_evalBranches {front : List (Node × Node)} {earlier : List Node}
    (h : Rejects world document includer session earlier between)
    (hfront : front.map Prod.fst = earlier) (later : List Node) (otherwise : Eval String) :
    (evalBranches world document includer (Node.unpaired front ++ later) otherwise).run session =
      (evalBranches world document includer later otherwise).run between := by
  induction h generalizing front with
  | nil =>
    rw [List.map_eq_nil_iff.1 hfront]
    rfl
  | cons hvalue hholds _ ih =>
    obtain ⟨⟨condition, body⟩, front, rfl, rfl, hrest⟩ := List.map_eq_cons_iff.1 hfront
    change (evalBranches world document includer
      (condition :: body :: (Node.unpaired front ++ later)) otherwise).run _ = _
    rw [run_evalBranches_of_ok (run_needBool_of_some hvalue hholds)]
    exact ih hrest

/-- The last body is what is left when no condition holds. -/
theorem Rejects.run_all
    (h : Rejects world document includer session conditional.conditions between) :
    (evalBranches world document includer (Node.unpaired conditional.branches)
      (lastResort world document includer conditional)).run session =
      (lastResort world document includer conditional).run between := by
  have hall := h.run_evalBranches rfl [] (lastResort world document includer conditional)
  rw [List.append_nil] at hall
  exact hall

/-- Evaluation comes to a branch if no condition before it holds. -/
theorem Rejects.run_branch {earlier : List Node}
    (h : Rejects world document includer session earlier between)
    (hbranch : conditional.HasBranch earlier condition body) : ∃ later,
    (evalBranches world document includer (Node.unpaired conditional.branches)
      (lastResort world document includer conditional)).run session =
      (evalBranches world document includer (condition :: body :: later)
        (lastResort world document includer conditional)).run between := by
  obtain ⟨front, later, hsplit, hfront⟩ := hbranch
  refine ⟨Node.unpaired later, ?_⟩
  rw [hsplit, Node.unpaired, List.flatMap_append]
  exact h.run_evalBranches hfront _ _

/-- However a conditional ends, the evaluation of its branches ends like that. -/
theorem Ends.run_eq {outcome : Except EvalError String × Session}
    (h : Ends world document includer session conditional outcome) :
    (evalBranches world document includer (Node.unpaired conditional.branches)
      (lastResort world document includer conditional)).run session = outcome := by
  cases h with
  | taken hbranch hearlier hvalue hholds =>
    obtain ⟨later, hrun⟩ := hearlier.run_branch hbranch
    rw [hrun, run_evalBranches_of_ok (run_needBool_of_some hvalue hholds)]
    rfl
  | failed hbranch hearlier hvalue =>
    obtain ⟨later, hrun⟩ := hearlier.run_branch hbranch
    rw [hrun, run_evalBranches_of_error (run_needBool_of_error hvalue)]
  | unsuitable hbranch hearlier hvalue hholds =>
    obtain ⟨later, hrun⟩ := hearlier.run_branch hbranch
    rw [hrun, run_evalBranches_of_error (run_needBool_of_none hvalue hholds)]
  | untaken hotherwise hall =>
    rw [hall.run_all, lastResort, hotherwise]
    rfl
  | empty hotherwise hall =>
    rw [hall.run_all, lastResort, hotherwise]
    rfl

/-- A branch whose condition does not hold changes nothing about the end. -/
theorem Ends.cons {branches : List (Node × Node)} {otherwise : Option Node}
    {outcome : Except EvalError String × Session}
    (hvalue : (evalValue world document includer condition).run session = (.ok value, after))
    (hholds : value.coerceBool? = some false)
    (h : Ends world document includer after ⟨branches, otherwise⟩ outcome) :
    Ends world document includer session ⟨(condition, body) :: branches, otherwise⟩ outcome := by
  cases h with
  | taken hbranch hearlier hvalue' hholds' =>
    exact .taken (hbranch.cons (condition, body)) (.cons hvalue hholds hearlier) hvalue' hholds'
  | failed hbranch hearlier hvalue' =>
    exact .failed (hbranch.cons (condition, body)) (.cons hvalue hholds hearlier) hvalue'
  | unsuitable hbranch hearlier hvalue' hholds' =>
    exact .unsuitable (hbranch.cons (condition, body)) (.cons hvalue hholds hearlier) hvalue'
      hholds'
  | untaken hotherwise hall => exact .untaken hotherwise (.cons hvalue hholds hall)
  | empty hotherwise hall => exact .empty hotherwise (.cons hvalue hholds hall)

/-- Every conditional comes to an end in one of the five ways. -/
theorem exists_ends (session : Session) (conditional : Conditional) :
    ∃ outcome, Ends world document includer session conditional outcome := by
  obtain ⟨branches, otherwise⟩ := conditional
  -- a condition that does not hold leaves another session for the rest
  induction branches generalizing session with
  | nil =>
    cases otherwise with
    | none => exact ⟨_, .empty rfl (.nil session)⟩
    | some body => exact ⟨_, .untaken rfl (.nil session)⟩
  | cons branch rest ih =>
    obtain ⟨condition, body⟩ := branch
    have hfirst : Conditional.HasBranch ⟨(condition, body) :: rest, otherwise⟩ [] condition body :=
      ⟨[], rest, rfl, rfl⟩
    rcases hvalue : (evalValue world document includer condition).run session with
      ⟨e | value, after⟩
    · exact ⟨_, .failed hfirst (.nil session) hvalue⟩
    · cases hholds : value.coerceBool? with
      | none => exact ⟨_, .unsuitable hfirst (.nil session) hvalue hholds⟩
      | some holds =>
        cases holds with
        | true => exact ⟨_, .taken hfirst (.nil session) hvalue hholds⟩
        | false =>
          obtain ⟨outcome, hends⟩ := ih after
          exact ⟨outcome, hends.cons hvalue hholds⟩

/-- What makes a conditional end makes any other end in the same way that decides alike. -/
theorem DecidesAlike.exists_ends {other : Conditional}
    (h : DecidesAlike world document includer session conditional other) :
    ∃ outcome, Ends world document includer session conditional outcome ∧
      Ends world document includer session other outcome := by
  cases h with
  | taken hfirst hsecond hearlier hvalue hholds =>
    exact ⟨_, .taken hfirst hearlier hvalue hholds, .taken hsecond hearlier hvalue hholds⟩
  | @stopped _ _ _ _ result _ _ hfirst hsecond hearlier hvalue hfails =>
    cases result with
    | error e => exact ⟨_, .failed hfirst hearlier hvalue, .failed hsecond hearlier hvalue⟩
    | ok value =>
      have hholds := hfails value rfl
      exact ⟨_, .unsuitable hfirst hearlier hvalue hholds,
        .unsuitable hsecond hearlier hvalue hholds⟩
  | untaken hconditions hotherwise hall =>
    have hother := hconditions.symm ▸ hall
    cases hlast : conditional.otherwise with
    | none => exact ⟨_, .empty hlast hall, .empty (hotherwise.trans hlast) hother⟩
    | some body => exact ⟨_, .untaken hlast hall, .untaken (hotherwise.trans hlast) hother⟩

/-- The first branch is no different from those that follow it. -/
theorem evalNode_conditional {node : Node} (h : node.IsConditional conditional) :
    evalNode world document includer node = (do
      Eval.checkInterrupt
      let text ← evalBranches world document includer (Node.unpaired conditional.branches)
        (lastResort world document includer conditional)
      return some (.str text)) := by
  obtain ⟨condition, body, elseIfs, hview, hall⟩ := h
  rw [← hall, evalBranches]
  -- evaluation tells the conditional with a last body from the one without
  rcases Node.view?_eq_ifElse hview with
    ⟨word, ⟨_, _, _⟩, final, hnode, rfl, hotherwise⟩ |
    ⟨word, ⟨_, _, _⟩, kind, elseWord, elseBody, elsePos, final, hnode, rfl, hotherwise⟩
  all_goals
    rw [hnode, evalNode, lastResort, hotherwise]
    refine bind_congr fun _ => ?_
    rw [bind_assoc]
    refine bind_congr fun holds => ?_
    cases holds <;> rfl

/-- No node is evaluated once the evaluation has been told to stop. -/
theorem run_evalNode_of_zero (h : session.patience = some 0) (node : Node) :
    (evalNode world document includer node).run session = (.error .interrupted, session) := by
  rw [evalNode.eq_def, Eval.run_bind, Eval.run_checkInterrupt_of_zero h]

/-- The text of a conditional is that of its branches, once it has been asked whether to go on. If
it has been told to stop, the first condition says so. -/
theorem run_evalNode_conditional {node : Node} (h : node.IsConditional conditional)
    {outcome : Except EvalError String × Session}
    (hends : Ends world document includer (session.waited 1) conditional outcome) :
    (evalNode world document includer node).run session =
      (outcome.1.map fun text => some (.str text), outcome.2) := by
  have hrun := hends.run_eq
  rw [evalNode_conditional h, Eval.run_bind]
  by_cases hzero : session.patience = some 0
  -- the check at the node fails just as the one at the first condition would
  · obtain ⟨condition, body, elseIfs, -, hall⟩ := h
    have hvalue : (evalValue world document includer condition).run session =
        (.error .interrupted, session) := by
      rw [evalValue, needValue, Eval.run_bind, run_evalNode_of_zero hzero]
    rw [Session.waited_of_zero hzero, ← hall,
      run_evalBranches_of_error (run_needBool_of_error hvalue)] at hrun
    rw [Eval.run_checkInterrupt_of_zero hzero, ← hrun]
    rfl
  · rw [Eval.run_checkInterrupt, if_neg hzero]
    dsimp only
    rw [Eval.run_bind, hrun]
    obtain ⟨result, after⟩ := outcome
    cases result <;> rfl

end Evaluation

open Evaluation in
/-- Just one branch of a conditional is taken. When it has been asked whether to go on, the
conditions are evaluated in their order up to the first that holds, and then its body alone, or the
last body if none holds; one that fails or is no truth value ends it. Another conditional that
decides alike has the same result and leaves the same session, whatever its other parts are. All
this is said of the conditionals of parsed trees, too. -/
theorem one_branch_is_taken (world : World) (document : Document) (includer : Includer) :
    (∀ node : Node, node.kind = .ifStatement → node.WellShaped →
      ∃ conditional, node.IsConditional conditional ∧ conditional.branches ≠ []) ∧
    (∀ node : Node, node.Parsed → node.WellShaped) ∧
    ∀ (node : Node) (conditional : Conditional), node.IsConditional conditional →
      ∀ session : Session,
        (∃ outcome, Ends world document includer (session.waited 1) conditional outcome ∧
          (∀ other, Ends world document includer (session.waited 1) conditional other →
            other = outcome) ∧
          (evalNode world document includer node).run session =
            (outcome.1.map fun text => some (.str text), outcome.2)) ∧
        ∀ (node' : Node) (conditional' : Conditional), node'.IsConditional conditional' →
          DecidesAlike world document includer (session.waited 1) conditional conditional' →
            (evalNode world document includer node').run session =
              (evalNode world document includer node).run session := by
  refine ⟨fun node hkind hshape => hshape.isConditional hkind,
    fun node hparsed => hparsed.sound.wellShaped, ?_⟩
  intro node conditional hnode session
  constructor
  · obtain ⟨outcome, hends⟩ := exists_ends (session.waited 1) conditional
    refine ⟨outcome, hends, fun other hother => ?_, run_evalNode_conditional hnode hends⟩
    exact hother.run_eq.symm.trans hends.run_eq
  · intro node' conditional' hnode' halike
    obtain ⟨outcome, hends, hends'⟩ := halike.exists_ends
    rw [run_evalNode_conditional hnode hends, run_evalNode_conditional hnode' hends']

/-- The tokens of
`{{ if a }}{{: x }}{{ else_if b }}yes{{ else_if x }}{{: x }}{{ else }}{{: x }}{{ end }}`,
all at one place. -/
def branchingTokens : List Token :=
  [.delimiter .blockOpen, .keyword .ifWord, .identifier "a", .delimiter .blockClose,
    .delimiter .printOpen, .identifier "x", .delimiter .blockClose,
    .delimiter .blockOpen, .keyword .elseIfWord, .identifier "b", .delimiter .blockClose,
    .text "yes", .delimiter .blockOpen, .keyword .elseIfWord, .identifier "x",
    .delimiter .blockClose, .delimiter .printOpen, .identifier "x", .delimiter .blockClose,
    .delimiter .blockOpen, .keyword .elseWord, .delimiter .blockClose, .delimiter .printOpen,
    .identifier "x", .delimiter .blockClose, .delimiter .blockOpen, .keyword .endWord,
    .delimiter .blockClose].map fun kind => ⟨kind, ⟨1, 1⟩⟩

def nameLeaf (name : String) : Node := .leaf (.varName [name]) ⟨1, 1⟩

def textBody (text : String) : Node := ⟨.content, [.leaf (.text text) ⟨1, 1⟩], ⟨1, 1⟩⟩

/-- The branches of their tree, with a last condition and with a body wherever `b` does not lead. -/
def branchesAround (last body : Node) : Conditional :=
  ⟨[(nameLeaf "a", body), (nameLeaf "b", textBody "yes"), (last, body)], some body⟩

def branchingNode (last body : Node) : Node :=
  ⟨.ifStatement, [.leaf (.identifier "if") ⟨1, 1⟩, nameLeaf "a", body,
    ⟨.elseIfList, [nameLeaf "b", textBody "yes", last, body], ⟨1, 1⟩⟩,
    ⟨.elseClause, [.leaf (.identifier "else") ⟨1, 1⟩, body], ⟨1, 1⟩⟩,
    .leaf (.identifier "end") ⟨1, 1⟩], ⟨1, 1⟩⟩

theorem branchingNode_isConditional (last body : Node) :
    (branchingNode last body).IsConditional (branchesAround last body) :=
  ⟨_, _, _, rfl, rfl⟩

theorem branchesAround_hasBranch (last body : Node) :
    (branchesAround last body).HasBranch [nameLeaf "a"] (nameLeaf "b") (textBody "yes") :=
  ⟨[(nameLeaf "a", body)], [(last, body)], rfl, rfl⟩

set_option maxRecDepth 2048 in
open Evaluation in
/-- The name `x` is not bound, but nobody asks for it. -/
theorem one_branch_is_taken_of_three :
    let world : World := {}
    let document : Document := { path := .ofText "p" }
    let session : Session := { context := .ofList [("a", .str "false"), ("b", .bool true)] }
    let failing : Node := ⟨.content, [⟨.printBlock, [nameLeaf "x"], ⟨1, 1⟩⟩], ⟨1, 1⟩⟩
    let node := branchingNode (nameLeaf "x") failing
    let node' := branchingNode (nameLeaf "y") (textBody "no")
    node.WellShaped ∧
      (eval world document node).run session = (.ok (some (.str "yes")), session) ∧
      (eval world document node').run session = (.ok (some (.str "yes")), session) := by
  intro world document session failing node node'
  have hparse : parse branchingTokens = .ok [node] := by
    cbv
  obtain ⟨-, hshapes, hruns⟩ := one_branch_is_taken world document (inclusion world document)
  have hshape := hshapes node ⟨_, _, node, hparse, List.mem_cons_self, .self node⟩
  have hfirst : (evalValue world document (inclusion world document) (nameLeaf "a")).run session =
      (.ok (.str "false"), session) := by
    cbv
  have hsecond : (evalValue world document (inclusion world document) (nameLeaf "b")).run session =
      (.ok (.bool true), session) := by
    cbv
  have htext : (toText (evalNode world document (inclusion world document)
      (textBody "yes"))).run session = (.ok "yes", session) := by
    cbv
  have hearlier : Rejects world document (inclusion world document) session [nameLeaf "a"]
      session := .cons hfirst (by decide) (.nil session)
  obtain ⟨⟨outcome, -, hunique, hrun⟩, hother⟩ :=
    hruns node _ (branchingNode_isConditional (nameLeaf "x") failing) session
  have hbranch := branchesAround_hasBranch (nameLeaf "x") failing
  have houtcome := hunique _ (.taken hbranch hearlier hsecond rfl)
  rw [htext] at houtcome
  rw [← houtcome] at hrun
  have hbranch' := branchesAround_hasBranch (nameLeaf "y") (textBody "no")
  have hsame := hother node' _ (branchingNode_isConditional (nameLeaf "y") (textBody "no"))
    (.taken hbranch hbranch' hearlier hsecond rfl)
  exact ⟨hshape, hrun, hsame.trans hrun⟩

end PageTemplate
