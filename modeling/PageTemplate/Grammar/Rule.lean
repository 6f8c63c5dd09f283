import PageTemplate.Grammar.Symbol

namespace PageTemplate

/-- A rule of the grammar, in the order of the published list. -/
inductive Rule
  | start | unitBlock | unitPrintBlock | unitIf | unitFor | block | printBlock | statementAppend
  | statementTrailing | statementFirst | assignment | exprLogic | logic | logicRel | relation
  | relAdd | plus | minus | addMult | mult | multUnary | not | negate | unaryTerm | stringLiteral
  | numberLiteral | boolLiteral | termVar | termCall | parenthesized | dottedName | simpleName
  | funcCall | argsSome | argsNone | argAppend | argFirst | ifStatement | elseIfTail | elseTail
  | endTail | forParenthesized | forBare | loopString | loopVar | loopCall | contentAppend
  | contentEmpty | itemText | itemBlock | itemPrintBlock | itemIf | itemFor
  deriving DecidableEq

namespace Rule

def name : Rule → String
  | .start => "Start"
  | .unitBlock => "UnitBlock"
  | .unitPrintBlock => "UnitPrintBlock"
  | .unitIf => "UnitIf"
  | .unitFor => "UnitFor"
  | .block => "Block"
  | .printBlock => "PrintBlock"
  | .statementAppend => "StatementAppend"
  | .statementTrailing => "StatementTrailing"
  | .statementFirst => "StatementFirst"
  | .assignment => "Assignment"
  | .exprLogic => "ExprLogic"
  | .logic => "Logic"
  | .logicRel => "LogicRel"
  | .relation => "Relation"
  | .relAdd => "RelAdd"
  | .plus => "Plus"
  | .minus => "Minus"
  | .addMult => "AddMult"
  | .mult => "Mult"
  | .multUnary => "MultUnary"
  | .not => "Not"
  | .negate => "Negate"
  | .unaryTerm => "UnaryTerm"
  | .stringLiteral => "StringLiteral"
  | .numberLiteral => "NumberLiteral"
  | .boolLiteral => "BoolLiteral"
  | .termVar => "TermVar"
  | .termCall => "TermCall"
  | .parenthesized => "Parenthesized"
  | .dottedName => "DottedName"
  | .simpleName => "SimpleName"
  | .funcCall => "FuncCall"
  | .argsSome => "ArgsSome"
  | .argsNone => "ArgsNone"
  | .argAppend => "ArgAppend"
  | .argFirst => "ArgFirst"
  | .ifStatement => "IfStatement"
  | .elseIfTail => "ElseIf"
  | .elseTail => "Else"
  | .endTail => "EndIf"
  | .forParenthesized => "ForParenthesized"
  | .forBare => "ForBare"
  | .loopString => "LoopString"
  | .loopVar => "LoopVar"
  | .loopCall => "LoopCall"
  | .contentAppend => "ContentAppend"
  | .contentEmpty => "ContentEmpty"
  | .itemText => "ItemText"
  | .itemBlock => "ItemBlock"
  | .itemPrintBlock => "ItemPrintBlock"
  | .itemIf => "ItemIf"
  | .itemFor => "ItemFor"

def lhs : Rule → Nonterminal
  | .start => .start
  | .unitBlock | .unitPrintBlock | .unitIf | .unitFor => .unit
  | .block => .block
  | .printBlock => .printBlock
  | .statementAppend | .statementTrailing | .statementFirst => .statementList
  | .assignment | .exprLogic => .expression
  | .logic | .logicRel => .logicExpr
  | .relation | .relAdd => .relationExpr
  | .plus | .minus | .addMult => .addExpr
  | .mult | .multUnary => .multExpr
  | .not | .negate | .unaryTerm => .unaryExpr
  | .stringLiteral | .numberLiteral | .boolLiteral | .termVar | .termCall | .parenthesized => .term
  | .dottedName | .simpleName => .varRef
  | .funcCall => .funcCall
  | .argsSome | .argsNone => .args
  | .argAppend | .argFirst => .argList
  | .ifStatement => .ifStatement
  | .elseIfTail | .elseTail | .endTail => .ifRest
  | .forParenthesized | .forBare => .forLoop
  | .loopString | .loopVar | .loopCall => .loopInput
  | .contentAppend | .contentEmpty => .content
  | .itemText | .itemBlock | .itemPrintBlock | .itemIf | .itemFor => .item

def rhs : Rule → List GrammarSymbol
  | .start => [.phrase .unit]
  | .unitBlock => [.phrase .block]
  | .unitPrintBlock => [.phrase .printBlock]
  | .unitIf => [.phrase .ifStatement]
  | .unitFor => [.phrase .forLoop]
  | .block => [.terminal .blockOpen, .phrase .statementList, .terminal .blockClose]
  | .printBlock => [.terminal .printOpen, .phrase .expression, .terminal .blockClose]
  | .statementAppend => [.phrase .statementList, .terminal .semicolon, .phrase .expression]
  | .statementTrailing => [.phrase .statementList, .terminal .semicolon]
  | .statementFirst => [.phrase .expression]
  | .assignment => [.phrase .varRef, .terminal .assign, .phrase .expression]
  | .exprLogic => [.phrase .logicExpr]
  | .logic => [.phrase .logicExpr, .terminal .logicOp, .phrase .relationExpr]
  | .logicRel => [.phrase .relationExpr]
  | .relation => [.phrase .relationExpr, .terminal .relationOp, .phrase .addExpr]
  | .relAdd => [.phrase .addExpr]
  | .plus => [.phrase .addExpr, .terminal .plus, .phrase .multExpr]
  | .minus => [.phrase .addExpr, .terminal .minus, .phrase .multExpr]
  | .addMult => [.phrase .multExpr]
  | .mult => [.phrase .multExpr, .terminal .multOp, .phrase .unaryExpr]
  | .multUnary => [.phrase .unaryExpr]
  | .not => [.terminal .bang, .phrase .unaryExpr]
  | .negate => [.terminal .minus, .phrase .unaryExpr]
  | .unaryTerm => [.phrase .term]
  | .stringLiteral => [.terminal .string]
  | .numberLiteral => [.terminal .number]
  | .boolLiteral => [.terminal .bool]
  | .termVar => [.phrase .varRef]
  | .termCall => [.phrase .funcCall]
  | .parenthesized => [.terminal .leftParen, .phrase .expression, .terminal .rightParen]
  | .dottedName => [.terminal .dottedName]
  | .simpleName => [.terminal .identifier]
  | .funcCall => [.terminal .identifier, .terminal .leftParen, .phrase .args, .terminal .rightParen]
  | .argsSome => [.phrase .argList]
  | .argsNone => []
  | .argAppend => [.phrase .argList, .terminal .comma, .phrase .expression]
  | .argFirst => [.phrase .expression]
  | .ifStatement =>
    [.terminal .blockOpen, .terminal .ifWord, .phrase .expression, .terminal .blockClose,
      .phrase .content, .phrase .ifRest]
  | .elseIfTail =>
    [.terminal .blockOpen, .terminal .elseIfWord, .phrase .expression, .terminal .blockClose,
      .phrase .content, .phrase .ifRest]
  | .elseTail =>
    [.terminal .blockOpen, .terminal .elseWord, .terminal .blockClose, .phrase .content,
      .terminal .blockOpen, .terminal .endWord, .terminal .blockClose]
  | .endTail => [.terminal .blockOpen, .terminal .endWord, .terminal .blockClose]
  | .forParenthesized =>
    [.terminal .blockOpen, .terminal .forWord, .terminal .leftParen, .terminal .identifier,
      .terminal .inWord, .phrase .loopInput, .terminal .rightParen, .terminal .blockClose,
      .phrase .content, .terminal .blockOpen, .terminal .endWord, .terminal .blockClose]
  | .forBare =>
    [.terminal .blockOpen, .terminal .forWord, .terminal .identifier, .terminal .inWord,
      .phrase .loopInput, .terminal .blockClose, .phrase .content, .terminal .blockOpen,
      .terminal .endWord, .terminal .blockClose]
  | .loopString => [.terminal .string]
  | .loopVar => [.phrase .varRef]
  | .loopCall => [.phrase .funcCall]
  | .contentAppend => [.phrase .content, .phrase .item]
  | .contentEmpty => []
  | .itemText => [.terminal .text]
  | .itemBlock => [.phrase .block]
  | .itemPrintBlock => [.phrase .printBlock]
  | .itemIf => [.phrase .ifStatement]
  | .itemFor => [.phrase .forLoop]

def all : List Rule :=
  [.start, .unitBlock, .unitPrintBlock, .unitIf, .unitFor, .block, .printBlock, .statementAppend,
   .statementTrailing, .statementFirst, .assignment, .exprLogic, .logic, .logicRel, .relation,
   .relAdd, .plus, .minus, .addMult, .mult, .multUnary, .not, .negate, .unaryTerm, .stringLiteral,
   .numberLiteral, .boolLiteral, .termVar, .termCall, .parenthesized, .dottedName, .simpleName,
   .funcCall, .argsSome, .argsNone, .argAppend, .argFirst, .ifStatement, .elseIfTail, .elseTail,
   .endTail, .forParenthesized, .forBare, .loopString, .loopVar, .loopCall, .contentAppend,
   .contentEmpty, .itemText, .itemBlock, .itemPrintBlock, .itemIf, .itemFor]

end Rule
end PageTemplate
