import PageTemplate.Node

namespace PageTemplate

/-- The part a child plays in its parent. -/
inductive Role
  | expression | statementList | content | elseIfList | elseClause | identifier | loopInput
  | argsList | varName | operator
  | keyword (word : String)
  | anything
  deriving DecidableEq

namespace Role

def name : Role → String
  | .expression => "an expression"
  | .statementList => "statement list"
  | .content => "content"
  | .elseIfList => "else_if list"
  | .elseClause => "else clause"
  | .identifier => "identifier"
  | .loopInput => "loop input"
  | .argsList => "argument list"
  | .varName => "variable name"
  | .operator => "operator"
  | .keyword word => word
  | .anything => "anything"

def admits : Role → NodeKind → Bool
  | .expression, kind => kind.isExpression
  | .statementList, .statementList => true
  | .content, .content => true
  | .elseIfList, .elseIfList => true
  | .elseClause, .elseClause => true
  | .identifier, .identifier _ => true
  | .loopInput, .stringLiteral _ => true
  | .loopInput, .varName _ => true
  | .loopInput, .funcCall => true
  | .argsList, .argsList => true
  | .varName, .varName _ => true
  | .operator, .operator _ => true
  | .keyword word, .identifier name => name == word
  | .anything, _ => true
  | _, _ => false

end Role

inductive ShapeFault
  | childCount (expected found : Nat)
  | ifChildCount (found : Nat)
  | noStatement
  | unpaired (found : Nat)
  | wrongChild (index : Nat) (role : Role) (found : NodeKind)
  | notAList
  deriving DecidableEq

def ShapeFault.message : ShapeFault → String
  | .childCount expected found =>
    "expected " ++ Text.decimalNat expected ++ " children, got " ++ Text.decimalNat found
  | .ifChildCount found => "expected 5 or 6 children, got " ++ Text.decimalNat found
  | .noStatement => "expected at least one statement"
  | .unpaired found =>
    "expected condition/body pairs, got " ++ Text.decimalNat found ++ " children"
  | .wrongChild index role found =>
    "child " ++ Text.decimalNat index ++ " should be " ++ role.name ++ ", found " ++ found.name
  | .notAList => "node does not hold a list"

namespace NodeKind

def fixedRoles (roles : List Role) (count : Nat) : Except ShapeFault (List Role) :=
  if count = roles.length then .ok roles else .error (.childCount roles.length count)

/-- The roles that so many children of a kind play, or why there cannot be so many. -/
def roles (kind : NodeKind) (count : Nat) : Except ShapeFault (List Role) :=
  match kind with
  | .text _ | .varName _ | .stringLiteral _ | .numberLiteral _ | .boolLiteral _ | .identifier _
  | .operator _ => fixedRoles [] count
  | .statementList =>
    if count = 0 then .error .noStatement else .ok (List.replicate count .expression)
  | .content | .argsList => .ok (List.replicate count .anything)
  | .block => fixedRoles [.statementList] count
  | .printBlock => fixedRoles [.expression] count
  | .ifStatement =>
    if count = 5 then .ok [.keyword "if", .expression, .content, .elseIfList, .keyword "end"]
    else if count = 6 then
      .ok [.keyword "if", .expression, .content, .elseIfList, .elseClause, .keyword "end"]
    else .error (.ifChildCount count)
  | .elseIfList =>
    if count % 2 = 0 then .ok (List.replicate (count / 2) [.expression, .content]).flatten
    else .error (.unpaired count)
  | .elseClause => fixedRoles [.keyword "else", .content] count
  | .forLoop => fixedRoles [.identifier, .loopInput, .content] count
  | .funcCall => fixedRoles [.identifier, .argsList] count
  | .expression .assignment => fixedRoles [.varName, .expression] count
  | .expression .unary => fixedRoles [.operator, .expression] count
  | .expression _ => fixedRoles [.expression, .operator, .expression] count

end NodeKind

namespace Node

/-- The first child, counted from `index`, that does not play its role. -/
def misfit? : Nat → List Role → List Node → Option ShapeFault
  | index, role :: roles, child :: children =>
    if role.admits child.kind then misfit? (index + 1) roles children
    else some (.wrongChild index role child.kind)
  | _, _, _ => none

def shapeFault? (kind : NodeKind) (children : List Node) : Option ShapeFault :=
  match kind.roles children.length with
  | .error fault => some fault
  | .ok roles => misfit? 0 roles children

def make (kind : NodeKind) (children : List Node) (pos : Position) : Except ShapeFault Node :=
  match shapeFault? kind children with
  | some fault => .error fault
  | none => .ok ⟨kind, children, pos⟩

def isList : NodeKind → Bool
  | .statementList | .content | .argsList => true
  | _ => false

def push (node child : Node) : Except ShapeFault Node :=
  if isList node.kind then make node.kind (node.children ++ [child]) node.pos
  else .error .notAList

end Node
end PageTemplate
