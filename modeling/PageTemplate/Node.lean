import PageTemplate.Token

namespace PageTemplate

inductive ExprKind
  | assignment | logic | relation | add | mult | unary
  deriving DecidableEq

inductive NodeKind
  /-- Text outside the blocks. -/
  | text (content : String)
  | statementList
  /-- The body of a branch or loop. -/
  | content
  | block
  | printBlock
  | ifStatement
  /-- Conditions and bodies of the `else_if` branches, alternating. -/
  | elseIfList
  | elseClause
  | forLoop
  | funcCall
  | argsList
  | varName (parts : List String)
  | stringLiteral (content : String)
  | numberLiteral (value : Int64)
  | boolLiteral (value : Bool)
  | identifier (name : String)
  | operator (spelling : String)
  | expression (kind : ExprKind)
  deriving DecidableEq

namespace NodeKind

def name : NodeKind → String
  | .text _ => "text"
  | .statementList => "statement list"
  | .content => "content"
  | .block => "block"
  | .printBlock => "print block"
  | .ifStatement => "if statement"
  | .elseIfList => "else_if list"
  | .elseClause => "else clause"
  | .forLoop => "for loop"
  | .funcCall => "function call"
  | .argsList => "argument list"
  | .varName _ => "variable name"
  | .stringLiteral _ => "string literal"
  | .numberLiteral _ => "number literal"
  | .boolLiteral _ => "bool literal"
  | .identifier _ => "identifier"
  | .operator _ => "operator"
  | .expression .assignment => "assignment"
  | .expression _ => "expression"

def isExpression : NodeKind → Bool
  | .varName _ | .stringLiteral _ | .numberLiteral _ | .boolLiteral _ | .funcCall
  | .expression _ => true
  | _ => false

end NodeKind

structure Node where
  kind : NodeKind
  children : List Node
  pos : Position

namespace Node

def leaf (kind : NodeKind) (pos : Position) : Node := ⟨kind, [], pos⟩

def identifier? (node : Node) : Option String :=
  match node.kind with
  | .identifier name => some name
  | _ => none

def operator? (node : Node) : Option String :=
  match node.kind with
  | .operator spelling => some spelling
  | _ => none

def varName? (node : Node) : Option (List String) :=
  match node.kind with
  | .varName parts => some parts
  | _ => none

end Node
end PageTemplate
