import PageTemplate.ParseError

namespace PageTemplate

/-- What follows the first branch of an if statement: the remaining conditions and bodies in source
order, the `else` clause, and the closing `end`. -/
structure IfTail where
  elseIfs : List Node
  elseClause : Option Node
  endWord : Node

inductive Entry
  | token (token : Token)
  | node (node : Node)
  | tail (tail : IfTail)

namespace Entry

def pos : Entry → Position
  | .token t => t.pos
  | .node n => n.pos
  | .tail t => t.endWord.pos

end Entry

def Token.word? (token : Token) : Option Node :=
  match token.kind with
  | .identifier name => some (.leaf (.identifier name) token.pos)
  | .keyword word => some (.leaf (.identifier word.spelling) token.pos)
  | _ => none

def Token.operator? (token : Token) : Option Node :=
  match token.kind with
  | .operator _ spelling => some (.leaf (.operator spelling) token.pos)
  | _ => none

/-- What a rule reads of its parts, from the left. Parts that it does not ask for stay unread. -/
abbrev Reading := StateT (List Entry) (Except Mismatch)

namespace Reading

def next : Reading Entry
  | [] => .error .missing
  | entry :: rest => .ok (entry, rest)

def skip : Nat → Reading Unit
  | 0 => return
  | count + 1 => do
    let _ ← next
    skip count

def node : Reading Node := do
  match ← next with
  | .node node => return node
  | .token token => throw (.unexpected token)
  | .tail _ => throw .tailForNode

def token : Reading Token := do
  match ← next with
  | .token token => return token
  | _ => throw .noToken

def tail : Reading IfTail := do
  match ← next with
  | .tail tail => return tail
  | _ => throw .noTail

def leaf (leaf? : Token → Option Node) : Reading Node := do
  let token ← token
  match leaf? token with
  | some node => return node
  | none => throw (.unexpected token)

def identifier : Reading Node := leaf Token.word?

def operator : Reading Node := leaf Token.operator?

def constant (kind? : TokenKind → Option NodeKind) : Reading Node :=
  leaf fun token => (kind? token.kind).map (.leaf · token.pos)

end Reading

namespace Rule

inductive Plan
  | ready (entry : Entry)
  | make (kind : NodeKind) (children : List Node)
  | push (list child : Node)
  | ifElse (ifWord condition body : Node) (tail : IfTail)
  | elseTail (children : List Node) (endWord : Node)

open Reading

def pass (reading : Reading Node) : Reading Plan :=
  return .ready (.node (← reading))

def binary (kind : ExprKind) : Reading Plan := do
  let left ← node
  let op ← operator
  let right ← node
  return .make (.expression kind) [left, op, right]

def unary : Reading Plan := do
  let op ← operator
  let operand ← node
  return .make (.expression .unary) [op, operand]

def append : Reading Plan := do
  let list ← node
  skip 1
  return .push list (← node)

/-- A name without a dot is a variable; a keyword can be one too. -/
def simpleNameOf (ident : Node) : Node :=
  let parts := match ident.kind with
    | .identifier name => [name]
    | _ => []
  .leaf (.varName parts) ident.pos

def loop (before between : Nat) : Reading Plan := do
  skip before
  let var ← identifier
  skip 1
  let input ← node
  skip between
  return .make .forLoop [var, input, ← node]

def reading : Rule → Reading Plan
  | .block => do
    skip 1
    return .make .block [← node]
  | .printBlock => do
    skip 1
    return .make .printBlock [← node]
  | .statementFirst => return .make .statementList [← node]
  | .statementAppend => append
  | .statementTrailing => pass node
  | .assignment => do
    let target ← node
    skip 1
    return .make (.expression .assignment) [target, ← node]
  | .logic => binary .logic
  | .relation => binary .relation
  | .plus | .minus => binary .add
  | .mult => binary .mult
  | .not | .negate => unary
  | .stringLiteral | .loopString => pass <| constant fun
    | .string content => some (.stringLiteral content)
    | _ => none
  | .numberLiteral => pass <| constant fun
    | .number value => some (.numberLiteral value)
    | _ => none
  | .boolLiteral => pass <| constant fun
    | .bool value => some (.boolLiteral value)
    | _ => none
  | .parenthesized => do
    skip 1
    pass node
  | .dottedName => pass <| constant fun
    | .dottedName parts => some (.varName parts)
    | _ => none
  | .simpleName => pass do return simpleNameOf (← identifier)
  | .funcCall => do
    let callee ← identifier
    skip 1
    return .make .funcCall [callee, ← node]
  | .argsNone => return .make .argsList []
  | .argFirst => return .make .argsList [← node]
  | .argAppend => append
  | .ifStatement => do
    skip 1
    let ifWord ← identifier
    let condition ← node
    skip 1
    let body ← node
    return .ifElse ifWord condition body (← tail)
  | .elseIfTail => do
    skip 2
    let condition ← node
    skip 1
    let body ← node
    let rest ← tail
    return .ready (.tail { rest with elseIfs := condition :: body :: rest.elseIfs })
  | .elseTail => do
    skip 1
    let elseWord ← identifier
    skip 1
    let body ← node
    skip 1
    return .elseTail [elseWord, body] (← identifier)
  | .endTail => do
    skip 1
    return .ready (.tail ⟨[], none, ← identifier⟩)
  | .forParenthesized => loop 3 2
  | .forBare => loop 2 1
  | .contentEmpty => return .make .content []
  | .contentAppend => do
    let content ← node
    return .push content (← node)
  | .itemText => pass <| constant fun
    | .text content => some (.text content)
    | _ => none
  | _ => pass node

def plan (rule : Rule) (parts : List Entry) : Except Mismatch Plan :=
  Prod.fst <$> rule.reading parts

def checked (kind : NodeKind) (children : List Node) (pos : Position) : Except ParseError Node :=
  match Node.make kind children pos with
  | .ok node => .ok node
  | .error fault => .error (.malformed (.shape kind fault) pos)

def Plan.carryOut (pos : Position) : Plan → Except ParseError Entry
  | .ready entry => .ok entry
  | .make kind children => .node <$> checked kind children pos
  | .push list child =>
    match list.push child with
    | .ok node => .ok (.node node)
    | .error fault => .error (.malformed (.shape list.kind fault) list.pos)
  | .ifElse ifWord condition body tail => do
    let elseIfs ← checked .elseIfList tail.elseIfs pos
    let children :=
      [ifWord, condition, body, elseIfs] ++ tail.elseClause.toList ++ [tail.endWord]
    .node <$> checked .ifStatement children pos
  | .elseTail children endWord => do
    let clause ← checked .elseClause children pos
    return .tail ⟨[], some clause, endWord⟩

/-- The entry for a rule's left-hand side from the entries of its right-hand side. It has the
position of the first of them; where there are none, that of the token read ahead. -/
def build (rule : Rule) (parts : List Entry) (lookahead : Position) : Except ParseError Entry :=
  let pos := match parts with
    | first :: _ => first.pos
    | [] => lookahead
  match rule.plan parts with
  | .ok plan => plan.carryOut pos
  | .error mismatch => .error (.malformed (.wrongEntry rule mismatch) pos)

end Rule
end PageTemplate
