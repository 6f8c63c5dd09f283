namespace PageTemplate

/-- A class of tokens. `endOfInput` stands for the end of a unit and is no token. -/
inductive Terminal
  | blockOpen | printOpen | blockClose | text | ifWord | elseIfWord | elseWord | forWord | inWord
  | endWord | identifier | dottedName | string | number | bool | leftParen | rightParen | comma
  | semicolon | assign | logicOp | relationOp | plus | minus | multOp | bang | endOfInput
  deriving DecidableEq

def Terminal.name : Terminal → String
  | .blockOpen => "Open"
  | .printOpen => "PrintOpen"
  | .blockClose => "Close"
  | .text => "Passthrough"
  | .ifWord => "If"
  | .elseIfWord => "ElseIf"
  | .elseWord => "Else"
  | .forWord => "For"
  | .inWord => "In"
  | .endWord => "End"
  | .identifier => "Identifier"
  | .dottedName => "VariableName"
  | .string => "String"
  | .number => "Number"
  | .bool => "Bool"
  | .leftParen => "LParen"
  | .rightParen => "RParen"
  | .comma => "Comma"
  | .semicolon => "Semicolon"
  | .assign => "Assign"
  | .logicOp => "LogicOp"
  | .relationOp => "RelOp"
  | .plus => "Plus"
  | .minus => "Minus"
  | .multOp => "MultOp"
  | .bang => "Bang"
  | .endOfInput => "EndOfInput"

def Terminal.all : List Terminal :=
  [.blockOpen, .printOpen, .blockClose, .text, .ifWord, .elseIfWord, .elseWord, .forWord, .inWord,
   .endWord, .identifier, .dottedName, .string, .number, .bool, .leftParen, .rightParen, .comma,
   .semicolon, .assign, .logicOp, .relationOp, .plus, .minus, .multOp, .bang, .endOfInput]

inductive Nonterminal
  | start | unit | block | printBlock | statementList | expression | logicExpr | relationExpr
  | addExpr | multExpr | unaryExpr | term | varRef | funcCall | args | argList | ifStatement
  | ifRest | forLoop | loopInput | content | item
  deriving DecidableEq

def Nonterminal.name : Nonterminal → String
  | .start => "Start"
  | .unit => "Unit"
  | .block => "Block"
  | .printBlock => "PrintBlock"
  | .statementList => "StatementList"
  | .expression => "Expression"
  | .logicExpr => "LogicExpr"
  | .relationExpr => "RelationExpr"
  | .addExpr => "AddExpr"
  | .multExpr => "MultExpr"
  | .unaryExpr => "UnaryExpr"
  | .term => "Term"
  | .varRef => "VarRef"
  | .funcCall => "FuncCall"
  | .args => "Args"
  | .argList => "ArgList"
  | .ifStatement => "IfStatement"
  | .ifRest => "IfRest"
  | .forLoop => "ForLoop"
  | .loopInput => "LoopInput"
  | .content => "Content"
  | .item => "Item"

def Nonterminal.all : List Nonterminal :=
  [.start, .unit, .block, .printBlock, .statementList, .expression, .logicExpr, .relationExpr,
   .addExpr, .multExpr, .unaryExpr, .term, .varRef, .funcCall, .args, .argList, .ifStatement,
   .ifRest, .forLoop, .loopInput, .content, .item]

inductive GrammarSymbol
  | terminal (t : Terminal)
  | phrase (n : Nonterminal)
  deriving DecidableEq

end PageTemplate
