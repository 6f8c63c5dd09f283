import PageTemplate.Node
import PageTemplate.Text.Quoted

namespace PageTemplate

namespace NodeKind

def head : NodeKind → String
  | .text raw => Text.quoteString raw
  | .varName parts => ".".intercalate parts
  | .stringLiteral raw => "\"" ++ raw ++ "\""
  | .numberLiteral value => Text.decimal value
  | .boolLiteral value => if value then "true" else "false"
  | .identifier name => name
  | .operator spelling => spelling
  | .block => "block"
  | .printBlock => "print"
  | .statementList => "stmts"
  | .content => "content"
  | .ifStatement => "if"
  | .elseIfList => "else_ifs"
  | .elseClause => "else"
  | .forLoop => "for"
  | .funcCall => "call"
  | .argsList => "args"
  | .expression .assignment => "="
  | .expression _ => "?"

def isLeaf : NodeKind → Bool
  | .text _ | .varName _ | .stringLiteral _ | .numberLiteral _ | .boolLiteral _ | .identifier _
  | .operator _ => true
  | _ => false

end NodeKind

namespace Node

mutual

def shown : Node → String
  | ⟨.expression .unary, [op, operand], _⟩ =>
    "(" ++ op.operator?.getD "" ++ " " ++ operand.shown ++ ")"
  | ⟨.expression kind, [left, op, right], _⟩ =>
    if kind = .assignment then "(=" ++ shownEach [left, op, right] ++ ")"
    else "(" ++ op.operator?.getD "" ++ " " ++ left.shown ++ " " ++ right.shown ++ ")"
  | ⟨kind, children, _⟩ =>
    if kind.isLeaf then kind.head else "(" ++ kind.head ++ shownEach children ++ ")"

def shownEach : List Node → String
  | [] => ""
  | child :: rest => " " ++ child.shown ++ shownEach rest

end

end Node
end PageTemplate
