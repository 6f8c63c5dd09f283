import PageTemplate.Builtin.Prelude
import PageTemplate.Node
import PageTemplate.TemplateLibrary
import PageTemplate.Value.Operators

namespace PageTemplate

/-- What the documents of a site share and evaluation does not change. -/
structure World where
  templates : TemplateLibrary := .empty
  /-- The files under a content path, or the reason why they cannot be listed. -/
  listing : String → Except String (List Path) := fun _ => .ok []
  builtins : Builtins := .prelude
  /-- The number of inclusions that may be under way at once. -/
  maxDepth : Nat := 64

namespace Evaluation

/-- What inclusion means to the nodes that ask for it. -/
abbrev Includer := String → Context → Eval String

def needValue (pos : Position) (step : Eval (Option Value)) : Eval Value := do
  match ← step with
  | some value => pure value
  | none => throw (.noValue pos)

def toText (step : Eval (Option Value)) : Eval String := do
  match ← step with
  | some value => pure value.text
  | none => pure ""

def needBool (pos : Position) (step : Eval (Option Value)) : Eval Bool := do
  let value ← needValue pos step
  match value.coerceBool? with
  | some b => pure b
  | none => throw (.conditionType value.type pos)

def exported (world : World) (path : String) : Eval (List Context) := do
  match world.listing path with
  | .error reason => throw (.contentUnavailable path reason)
  | .ok files => return files.map (← get).exports.get

/-- What a loop runs over: the entries of a scope, or the exports under a content path. -/
def loopItems (world : World) (pos : Position) : Value → Eval (List Value)
  | .container scope => pure scope.values
  | .str path => return (← exported world path).map .container
  | value => throw (.notIterable value.type pos)

/-- Run the body of a loop for each item, in the outer scope with the item bound. -/
def eachItem (var : String) (body : Eval String) : List Value → Eval (List String)
  | [] => pure []
  | item :: rest => do
    Eval.checkInterrupt
    let scope := (← get).context.merge (.ofList [(var, item)])
    let text ← Eval.inScope scope body
    return text :: (← eachItem var body rest)

def callee (world : World) (name : String) (count : Nat) (pos : Position) : Eval Builtin :=
  match world.builtins.get? name with
  | none => throw (.unknownFunction name pos)
  | some builtin =>
    match builtin.arity with
    | none => pure builtin
    | some arity =>
      if count = arity then pure builtin
      else throw (.invalidArgument builtin.name (.count arity count))

variable (world : World) (document : Document) (includer : Includer)

mutual

def evalNode (node : Node) : Eval (Option Value) := do
  Eval.checkInterrupt
  match node with
  | ⟨.text s, _, _⟩ | ⟨.stringLiteral s, _, _⟩
  | ⟨.identifier s, _, _⟩ | ⟨.operator s, _, _⟩ =>
    return some (.str s)
  | ⟨.numberLiteral n, _, _⟩ => return some (.int n)
  | ⟨.boolLiteral b, _, _⟩ => return some (.bool b)
  | ⟨.varName parts, _, pos⟩ =>
    match (← get).context.at? parts with
    | some value => return some value
    | none => throw (.undefinedVariable (".".intercalate parts) pos)
  | ⟨.block, [⟨_, statements, _⟩], _⟩ | ⟨.statementList, statements, _⟩ =>
    return some (.str (← evalStatements statements))
  | ⟨.printBlock, [expr], _⟩ =>
    return some (.str (← needValue expr.pos (evalNode expr)).text)
  | ⟨.content, items, _⟩ => return some (.str (← renderNodes items))
  | ⟨.ifStatement, [_, condition, body, ⟨_, branches, _⟩, _], _⟩ =>
    if ← needBool condition.pos (evalNode condition) then
      return some (.str (← toText (evalNode body)))
    else return some (.str (← evalBranches branches (pure "")))
  | ⟨.ifStatement, [_, condition, body, ⟨_, branches, _⟩, ⟨_, [_, elseBody], _⟩, _], _⟩ =>
    if ← needBool condition.pos (evalNode condition) then
      return some (.str (← toText (evalNode body)))
    else return some (.str (← evalBranches branches (toText (evalNode elseBody))))
  | ⟨.elseClause, [_, body], _⟩ => return some (.str (← toText (evalNode body)))
  | ⟨.forLoop, [⟨.identifier var, _, _⟩, input, body], pos⟩ =>
    let items ← match input.kind with
      | .stringLiteral path => loopItems world pos (.str path)
      | _ => do loopItems world pos (← needValue input.pos (evalNode input))
    return some (.str ("\n".intercalate (← eachItem var (toText (evalNode body)) items)))
  | ⟨.funcCall, [⟨.identifier name, _, _⟩, ⟨_, args, _⟩], pos⟩ =>
    let builtin ← callee world name args.length pos
    let values ← evalArgs args
    let host := ⟨document, exported world, includer⟩
    return some (← builtin.run host (builtin.implicit.map (Implicit.value document) ++ values))
  | ⟨.expression .assignment, [⟨.varName target, _, _⟩, value], _⟩ =>
    Eval.assign document target (← needValue value.pos (evalNode value))
    return none
  | ⟨.expression .unary, [⟨.operator op, _, _⟩, operand], pos⟩ =>
    let value ← needValue operand.pos (evalNode operand)
    return some (← Eval.ofExcept (Value.unary op value pos))
  | ⟨.expression _, [left, ⟨.operator op, _, _⟩, right], pos⟩ =>
    let lhs ← needValue left.pos (evalNode left)
    let rhs ← needValue right.pos (evalNode right)
    return some (← Eval.ofExcept (Value.binary op lhs rhs pos))
  | _ => return none

/-- The text of the last statement if it is a call; the values of other statements are dropped. -/
def evalStatements : List Node → Eval String
  | [] => pure ""
  | [last] => do
    let value ← evalNode last
    return if last.kind = .funcCall then (value.map Value.text).getD "" else ""
  | statement :: rest => do
    let _ ← evalNode statement
    evalStatements rest

def renderNodes : List Node → Eval String
  | [] => pure ""
  | node :: rest => do
    let text ← toText (evalNode node)
    return text ++ (← renderNodes rest)

def evalBranches : List Node → Eval String → Eval String
  | condition :: body :: rest, otherwise => do
    if ← needBool condition.pos (evalNode condition) then toText (evalNode body)
    else evalBranches rest otherwise
  | _, otherwise => otherwise

def evalArgs : List Node → Eval (List Value)
  | [] => pure []
  | arg :: rest => do
    let value ← needValue arg.pos (evalNode arg)
    return value :: (← evalArgs rest)

end

/-- Include a template while `remaining` more inclusions may be under way. -/
def inclusionWithin : Nat → Includer
  | 0, key, _ => do throw (.inclusionTooDeep (← get).depth key)
  | remaining + 1, key, scope =>
    match world.templates.get? key with
    | none => throw (.unknownTemplate key)
    | some nodes =>
      let text := renderNodes world document (inclusionWithin remaining) nodes
      Eval.deeper (Eval.inScope scope text)

def inclusion : Includer := fun key scope => do
  inclusionWithin world document (world.maxDepth - (← get).depth) key scope

def eval (node : Node) : Eval (Option Value) :=
  evalNode world document (inclusion world document) node

def render (node : Node) : Eval String := toText (eval world document node)

def renderAll (nodes : List Node) : Eval String :=
  renderNodes world document (inclusion world document) nodes

end Evaluation
end PageTemplate
