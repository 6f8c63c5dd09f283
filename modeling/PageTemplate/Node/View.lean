import PageTemplate.Node.Shape

namespace PageTemplate

inductive NodeView
  | text (content : String)
  /-- The statements of a block; a print block has exactly one. -/
  | block (print : Bool) (statements : List Node)
  | statementList (statements : List Node)
  | content (items : List Node)
  | ifElse (condition body : Node) (elseIfs : List Node) (elseBody : Option Node)
  | elseIfList (branches : List Node)
  | elseClause (body : Node)
  | loop (var : String) (input body : Node)
  | call (name : String) (args : List Node)
  | args (args : List Node)
  | varName (parts : List String)
  | string (content : String)
  | number (value : Int64)
  | bool (value : Bool)
  | identifier (name : String)
  | operator (spelling : String)
  | assignment (target : List String) (value : Node)
  | binary (kind : ExprKind) (left : Node) (op : String) (right : Node)
  | unary (op : String) (operand : Node)

namespace Node

def branches : List Node → List (Node × Node)
  | condition :: body :: rest => (condition, body) :: branches rest
  | _ => []

/-- Nothing for a node whose children do not fit its kind. -/
def view? : Node → Option NodeView
  | ⟨.text content, _, _⟩ => some (.text content)
  | ⟨.block, [list], _⟩ => some (.block false list.children)
  | ⟨.printBlock, [expr], _⟩ => some (.block true [expr])
  | ⟨.statementList, statements, _⟩ => some (.statementList statements)
  | ⟨.content, items, _⟩ => some (.content items)
  | ⟨.ifStatement, [_, condition, body, elseIfs, _], _⟩ =>
    some (.ifElse condition body elseIfs.children none)
  | ⟨.ifStatement, [_, condition, body, elseIfs, ⟨_, [_, elseBody], _⟩, _], _⟩ =>
    some (.ifElse condition body elseIfs.children (some elseBody))
  | ⟨.elseIfList, branches, _⟩ => some (.elseIfList branches)
  | ⟨.elseClause, [_, body], _⟩ => some (.elseClause body)
  | ⟨.forLoop, [var, input, body], _⟩ => var.identifier?.map fun name => .loop name input body
  | ⟨.funcCall, [callee, args], _⟩ =>
    callee.identifier?.map fun name => .call name args.children
  | ⟨.argsList, args, _⟩ => some (.args args)
  | ⟨.varName parts, _, _⟩ => some (.varName parts)
  | ⟨.stringLiteral content, _, _⟩ => some (.string content)
  | ⟨.numberLiteral value, _, _⟩ => some (.number value)
  | ⟨.boolLiteral value, _, _⟩ => some (.bool value)
  | ⟨.identifier name, _, _⟩ => some (.identifier name)
  | ⟨.operator spelling, _, _⟩ => some (.operator spelling)
  | ⟨.expression .assignment, [target, value], _⟩ =>
    target.varName?.map fun parts => .assignment parts value
  | ⟨.expression .unary, [op, operand], _⟩ =>
    op.operator?.map fun spelling => .unary spelling operand
  | ⟨.expression kind, [left, op, right], _⟩ =>
    op.operator?.map fun spelling => .binary kind left spelling right
  | _ => none

end Node
end PageTemplate
