import PageTemplate.Grammar.Rule

/-!
The table of the shift-reduce automaton for the template grammar. In a state and before a token it
says whether to move on over the token, to rebuild the last symbols by a rule, or to accept, and
after a rule it says in which state the automaton goes on.
-/

namespace PageTemplate

abbrev State := Nat

inductive Action
  | shift (next : State)
  | reduce (rule : Rule)
  | accept
  deriving DecidableEq

/-- One state: the symbol that every way into it ends with (the first state has none), the moves
over tokens, the rules with the terminals before which they apply, the states after phrases, and
whether the end of the input is accepted. -/
structure Row where
  entered : Option GrammarSymbol
  shifts : List (Terminal × State) := []
  reductions : List (Rule × List Terminal) := []
  gotos : List (Nonterminal × State) := []
  accepting : Bool := false

def Row.action? (row : Row) (t : Terminal) : Option Action :=
  match row.shifts.lookup t with
  | some next => some (.shift next)
  | none =>
    match row.reductions.find? fun entry => entry.2.contains t with
    | some entry => some (.reduce entry.1)
    | none => if row.accepting && t = .endOfInput then some .accept else none

namespace Table

def version : Nat := 1

def operandShifts : List (Terminal × State) :=
  [(.identifier, 8), (.dottedName, 9), (.string, 10), (.number, 11), (.bool, 12),
   (.leftParen, 13), (.minus, 14), (.bang, 15)]

def operandGotos : List (Nonterminal × State) :=
  [(.logicExpr, 17), (.relationExpr, 18), (.addExpr, 19), (.multExpr, 20), (.unaryExpr, 21),
   (.term, 22), (.varRef, 23), (.funcCall, 24)]

def bodyGotos : List (Nonterminal × State) :=
  [(.block, 70), (.printBlock, 71), (.ifStatement, 72), (.forLoop, 73), (.item, 74)]

def afterOperand : List Terminal :=
  [.blockClose, .rightParen, .comma, .semicolon, .logicOp, .relationOp, .plus, .minus, .multOp]

def bodyStart : List Terminal := [.blockOpen, .printOpen, .text]

def afterItem : List Terminal := bodyStart ++ [.endOfInput]

def rows : Array Row := #[
  -- 0
  { entered := none, shifts := [(.blockOpen, 1), (.printOpen, 2)],
    gotos := [(.unit, 3), (.block, 4), (.printBlock, 5), (.ifStatement, 6), (.forLoop, 7)] },
  -- 1
  { entered := some (.terminal .blockOpen),
    shifts := [(.ifWord, 50), (.forWord, 51)] ++ operandShifts,
    gotos := [(.statementList, 52), (.expression, 53)] ++ operandGotos },
  -- 2
  { entered := some (.terminal .printOpen), shifts := operandShifts,
    gotos := [(.expression, 16)] ++ operandGotos },
  -- 3
  { entered := some (.phrase .unit), accepting := true },
  -- 4
  { entered := some (.phrase .block), reductions := [(.unitBlock, [.endOfInput])] },
  -- 5
  { entered := some (.phrase .printBlock), reductions := [(.unitPrintBlock, [.endOfInput])] },
  -- 6
  { entered := some (.phrase .ifStatement), reductions := [(.unitIf, [.endOfInput])] },
  -- 7
  { entered := some (.phrase .forLoop), reductions := [(.unitFor, [.endOfInput])] },
  -- 8
  { entered := some (.terminal .identifier), shifts := [(.leftParen, 30)],
    reductions := [(.simpleName, afterOperand ++ [.assign])] },
  -- 9
  { entered := some (.terminal .dottedName),
    reductions := [(.dottedName, afterOperand ++ [.assign])] },
  -- 10
  { entered := some (.terminal .string), reductions := [(.stringLiteral, afterOperand)] },
  -- 11
  { entered := some (.terminal .number), reductions := [(.numberLiteral, afterOperand)] },
  -- 12
  { entered := some (.terminal .bool), reductions := [(.boolLiteral, afterOperand)] },
  -- 13
  { entered := some (.terminal .leftParen), shifts := operandShifts,
    gotos := [(.expression, 47)] ++ operandGotos },
  -- 14
  { entered := some (.terminal .minus), shifts := operandShifts,
    gotos := [(.unaryExpr, 46), (.term, 22), (.varRef, 29), (.funcCall, 24)] },
  -- 15
  { entered := some (.terminal .bang), shifts := operandShifts,
    gotos := [(.unaryExpr, 45), (.term, 22), (.varRef, 29), (.funcCall, 24)] },
  -- 16
  { entered := some (.phrase .expression), shifts := [(.blockClose, 49)] },
  -- 17
  { entered := some (.phrase .logicExpr), shifts := [(.logicOp, 43)],
    reductions := [(.exprLogic, [.blockClose, .rightParen, .comma, .semicolon])] },
  -- 18
  { entered := some (.phrase .relationExpr), shifts := [(.relationOp, 41)],
    reductions := [(.logicRel, [.blockClose, .rightParen, .comma, .semicolon, .logicOp])] },
  -- 19
  { entered := some (.phrase .addExpr), shifts := [(.plus, 37), (.minus, 38)],
    reductions := [(.relAdd, [.blockClose, .rightParen, .comma, .semicolon, .logicOp,
      .relationOp])] },
  -- 20
  { entered := some (.phrase .multExpr), shifts := [(.multOp, 27)],
    reductions := [(.addMult, [.blockClose, .rightParen, .comma, .semicolon, .logicOp,
      .relationOp, .plus, .minus])] },
  -- 21
  { entered := some (.phrase .unaryExpr), reductions := [(.multUnary, afterOperand)] },
  -- 22
  { entered := some (.phrase .term), reductions := [(.unaryTerm, afterOperand)] },
  -- 23
  { entered := some (.phrase .varRef), shifts := [(.assign, 25)],
    reductions := [(.termVar, afterOperand)] },
  -- 24
  { entered := some (.phrase .funcCall), reductions := [(.termCall, afterOperand)] },
  -- 25
  { entered := some (.terminal .assign), shifts := operandShifts,
    gotos := [(.expression, 26)] ++ operandGotos },
  -- 26
  { entered := some (.phrase .expression),
    reductions := [(.assignment, [.blockClose, .rightParen, .comma, .semicolon])] },
  -- 27
  { entered := some (.terminal .multOp), shifts := operandShifts,
    gotos := [(.unaryExpr, 28), (.term, 22), (.varRef, 29), (.funcCall, 24)] },
  -- 28
  { entered := some (.phrase .unaryExpr), reductions := [(.mult, afterOperand)] },
  -- 29
  { entered := some (.phrase .varRef), reductions := [(.termVar, afterOperand)] },
  -- 30
  { entered := some (.terminal .leftParen), shifts := operandShifts,
    reductions := [(.argsNone, [.rightParen])],
    gotos := [(.expression, 31), (.args, 32), (.argList, 33)] ++ operandGotos },
  -- 31
  { entered := some (.phrase .expression), reductions := [(.argFirst, [.rightParen, .comma])] },
  -- 32
  { entered := some (.phrase .args), shifts := [(.rightParen, 36)] },
  -- 33
  { entered := some (.phrase .argList), shifts := [(.comma, 34)],
    reductions := [(.argsSome, [.rightParen])] },
  -- 34
  { entered := some (.terminal .comma), shifts := operandShifts,
    gotos := [(.expression, 35)] ++ operandGotos },
  -- 35
  { entered := some (.phrase .expression), reductions := [(.argAppend, [.rightParen, .comma])] },
  -- 36
  { entered := some (.terminal .rightParen), reductions := [(.funcCall, afterOperand)] },
  -- 37
  { entered := some (.terminal .plus), shifts := operandShifts,
    gotos := [(.multExpr, 40), (.unaryExpr, 21), (.term, 22), (.varRef, 29), (.funcCall, 24)] },
  -- 38
  { entered := some (.terminal .minus), shifts := operandShifts,
    gotos := [(.multExpr, 39), (.unaryExpr, 21), (.term, 22), (.varRef, 29), (.funcCall, 24)] },
  -- 39
  { entered := some (.phrase .multExpr), shifts := [(.multOp, 27)],
    reductions := [(.minus, [.blockClose, .rightParen, .comma, .semicolon, .logicOp,
      .relationOp, .plus, .minus])] },
  -- 40
  { entered := some (.phrase .multExpr), shifts := [(.multOp, 27)],
    reductions := [(.plus, [.blockClose, .rightParen, .comma, .semicolon, .logicOp, .relationOp,
      .plus, .minus])] },
  -- 41
  { entered := some (.terminal .relationOp), shifts := operandShifts,
    gotos := [(.addExpr, 42), (.multExpr, 20), (.unaryExpr, 21), (.term, 22), (.varRef, 29),
      (.funcCall, 24)] },
  -- 42
  { entered := some (.phrase .addExpr), shifts := [(.plus, 37), (.minus, 38)],
    reductions := [(.relation, [.blockClose, .rightParen, .comma, .semicolon, .logicOp,
      .relationOp])] },
  -- 43
  { entered := some (.terminal .logicOp), shifts := operandShifts,
    gotos := [(.relationExpr, 44), (.addExpr, 19), (.multExpr, 20), (.unaryExpr, 21),
      (.term, 22), (.varRef, 29), (.funcCall, 24)] },
  -- 44
  { entered := some (.phrase .relationExpr), shifts := [(.relationOp, 41)],
    reductions := [(.logic, [.blockClose, .rightParen, .comma, .semicolon, .logicOp])] },
  -- 45
  { entered := some (.phrase .unaryExpr), reductions := [(.not, afterOperand)] },
  -- 46
  { entered := some (.phrase .unaryExpr), reductions := [(.negate, afterOperand)] },
  -- 47
  { entered := some (.phrase .expression), shifts := [(.rightParen, 48)] },
  -- 48
  { entered := some (.terminal .rightParen), reductions := [(.parenthesized, afterOperand)] },
  -- 49
  { entered := some (.terminal .blockClose), reductions := [(.printBlock, afterItem)] },
  -- 50
  { entered := some (.terminal .ifWord), shifts := operandShifts,
    gotos := [(.expression, 84)] ++ operandGotos },
  -- 51
  { entered := some (.terminal .forWord), shifts := [(.identifier, 57), (.leftParen, 58)] },
  -- 52
  { entered := some (.phrase .statementList), shifts := [(.blockClose, 54), (.semicolon, 55)] },
  -- 53
  { entered := some (.phrase .expression),
    reductions := [(.statementFirst, [.blockClose, .semicolon])] },
  -- 54
  { entered := some (.terminal .blockClose), reductions := [(.block, afterItem)] },
  -- 55
  { entered := some (.terminal .semicolon), shifts := operandShifts,
    reductions := [(.statementTrailing, [.blockClose, .semicolon])],
    gotos := [(.expression, 56)] ++ operandGotos },
  -- 56
  { entered := some (.phrase .expression),
    reductions := [(.statementAppend, [.blockClose, .semicolon])] },
  -- 57
  { entered := some (.terminal .identifier), shifts := [(.inWord, 77)] },
  -- 58
  { entered := some (.terminal .leftParen), shifts := [(.identifier, 59)] },
  -- 59
  { entered := some (.terminal .identifier), shifts := [(.inWord, 60)] },
  -- 60
  { entered := some (.terminal .inWord),
    shifts := [(.identifier, 8), (.dottedName, 9), (.string, 61)],
    gotos := [(.varRef, 62), (.funcCall, 63), (.loopInput, 64)] },
  -- 61
  { entered := some (.terminal .string),
    reductions := [(.loopString, [.blockClose, .rightParen])] },
  -- 62
  { entered := some (.phrase .varRef), reductions := [(.loopVar, [.blockClose, .rightParen])] },
  -- 63
  { entered := some (.phrase .funcCall),
    reductions := [(.loopCall, [.blockClose, .rightParen])] },
  -- 64
  { entered := some (.phrase .loopInput), shifts := [(.rightParen, 65)] },
  -- 65
  { entered := some (.terminal .rightParen), shifts := [(.blockClose, 66)] },
  -- 66
  { entered := some (.terminal .blockClose), reductions := [(.contentEmpty, bodyStart)],
    gotos := [(.content, 67)] },
  -- 67
  { entered := some (.phrase .content),
    shifts := [(.blockOpen, 68), (.printOpen, 2), (.text, 69)], gotos := bodyGotos },
  -- 68
  { entered := some (.terminal .blockOpen),
    shifts := [(.ifWord, 50), (.forWord, 51), (.endWord, 75)] ++ operandShifts,
    gotos := [(.statementList, 52), (.expression, 53)] ++ operandGotos },
  -- 69
  { entered := some (.terminal .text), reductions := [(.itemText, bodyStart)] },
  -- 70
  { entered := some (.phrase .block), reductions := [(.itemBlock, bodyStart)] },
  -- 71
  { entered := some (.phrase .printBlock), reductions := [(.itemPrintBlock, bodyStart)] },
  -- 72
  { entered := some (.phrase .ifStatement), reductions := [(.itemIf, bodyStart)] },
  -- 73
  { entered := some (.phrase .forLoop), reductions := [(.itemFor, bodyStart)] },
  -- 74
  { entered := some (.phrase .item), reductions := [(.contentAppend, bodyStart)] },
  -- 75
  { entered := some (.terminal .endWord), shifts := [(.blockClose, 76)] },
  -- 76
  { entered := some (.terminal .blockClose), reductions := [(.forParenthesized, afterItem)] },
  -- 77
  { entered := some (.terminal .inWord),
    shifts := [(.identifier, 8), (.dottedName, 9), (.string, 61)],
    gotos := [(.varRef, 62), (.funcCall, 63), (.loopInput, 78)] },
  -- 78
  { entered := some (.phrase .loopInput), shifts := [(.blockClose, 79)] },
  -- 79
  { entered := some (.terminal .blockClose), reductions := [(.contentEmpty, bodyStart)],
    gotos := [(.content, 80)] },
  -- 80
  { entered := some (.phrase .content),
    shifts := [(.blockOpen, 81), (.printOpen, 2), (.text, 69)], gotos := bodyGotos },
  -- 81
  { entered := some (.terminal .blockOpen),
    shifts := [(.ifWord, 50), (.forWord, 51), (.endWord, 82)] ++ operandShifts,
    gotos := [(.statementList, 52), (.expression, 53)] ++ operandGotos },
  -- 82
  { entered := some (.terminal .endWord), shifts := [(.blockClose, 83)] },
  -- 83
  { entered := some (.terminal .blockClose), reductions := [(.forBare, afterItem)] },
  -- 84
  { entered := some (.phrase .expression), shifts := [(.blockClose, 85)] },
  -- 85
  { entered := some (.terminal .blockClose), reductions := [(.contentEmpty, bodyStart)],
    gotos := [(.content, 86)] },
  -- 86
  { entered := some (.phrase .content),
    shifts := [(.blockOpen, 87), (.printOpen, 2), (.text, 69)],
    gotos := [(.ifRest, 88)] ++ bodyGotos },
  -- 87
  { entered := some (.terminal .blockOpen),
    shifts := [(.ifWord, 50), (.elseIfWord, 89), (.elseWord, 90), (.forWord, 51),
      (.endWord, 91)] ++ operandShifts,
    gotos := [(.statementList, 52), (.expression, 53)] ++ operandGotos },
  -- 88
  { entered := some (.phrase .ifRest), reductions := [(.ifStatement, afterItem)] },
  -- 89
  { entered := some (.terminal .elseIfWord), shifts := operandShifts,
    gotos := [(.expression, 98)] ++ operandGotos },
  -- 90
  { entered := some (.terminal .elseWord), shifts := [(.blockClose, 93)] },
  -- 91
  { entered := some (.terminal .endWord), shifts := [(.blockClose, 92)] },
  -- 92
  { entered := some (.terminal .blockClose), reductions := [(.endTail, afterItem)] },
  -- 93
  { entered := some (.terminal .blockClose), reductions := [(.contentEmpty, bodyStart)],
    gotos := [(.content, 94)] },
  -- 94
  { entered := some (.phrase .content),
    shifts := [(.blockOpen, 95), (.printOpen, 2), (.text, 69)], gotos := bodyGotos },
  -- 95
  { entered := some (.terminal .blockOpen),
    shifts := [(.ifWord, 50), (.forWord, 51), (.endWord, 96)] ++ operandShifts,
    gotos := [(.statementList, 52), (.expression, 53)] ++ operandGotos },
  -- 96
  { entered := some (.terminal .endWord), shifts := [(.blockClose, 97)] },
  -- 97
  { entered := some (.terminal .blockClose), reductions := [(.elseTail, afterItem)] },
  -- 98
  { entered := some (.phrase .expression), shifts := [(.blockClose, 99)] },
  -- 99
  { entered := some (.terminal .blockClose), reductions := [(.contentEmpty, bodyStart)],
    gotos := [(.content, 100)] },
  -- 100
  { entered := some (.phrase .content),
    shifts := [(.blockOpen, 87), (.printOpen, 2), (.text, 69)],
    gotos := [(.ifRest, 101)] ++ bodyGotos },
  -- 101
  { entered := some (.phrase .ifRest), reductions := [(.elseIfTail, afterItem)] }]

def action? (state : State) (t : Terminal) : Option Action :=
  rows[state]?.bind fun row => row.action? t

def goto? (state : State) (n : Nonterminal) : Option State :=
  rows[state]?.bind fun row => row.gotos.lookup n

end Table
end PageTemplate
