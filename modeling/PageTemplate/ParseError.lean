import PageTemplate.Grammar.Table
import PageTemplate.Node.Shape

namespace PageTemplate

/-- What a rule finds among its parts in place of the part that it reads. -/
inductive Mismatch
  | missing
  | unexpected (token : Token)
  | tailForNode
  | noToken
  | noTail
  deriving DecidableEq

def Mismatch.message : Mismatch → String
  | .missing => "missing right-hand side entry"
  | .unexpected token => "unexpected " ++ token.kind.shown
  | .tailForNode => "expected node, found if tail"
  | .noToken => "expected token"
  | .noTail => "expected if tail"

/-- A step of the automaton, or a request for a node, that cannot be carried out. -/
inductive Malformation
  | shape (kind : NodeKind) (fault : ShapeFault)
  | shortStack (rule : Rule) (entries : Nat)
  | wrongEntry (rule : Rule) (mismatch : Mismatch)
  | noGoto (phrase : Nonterminal) (state : State)
  | notSingle
  deriving DecidableEq

namespace Malformation

def subject : Malformation → String
  | .shape kind _ => kind.name
  | .shortStack _ _ | .noGoto _ _ => "parser stack"
  | .wrongEntry _ _ => "reduction"
  | .notSingle => "unit"

def reason : Malformation → String
  | .shape _ fault => fault.message
  | .shortStack rule entries =>
    "cannot reduce " ++ rule.name ++ " with " ++ Text.decimalNat entries ++ " entries"
  | .wrongEntry rule mismatch => rule.name ++ ": " ++ mismatch.message
  | .noGoto phrase state =>
    "no goto for " ++ phrase.name ++ " from state " ++ Text.decimalNat state
  | .notSingle => "accepted stack does not hold a single node"

end Malformation

inductive ParseError
  /-- A token that no valid document has at this place. -/
  | unexpectedToken (token : Token) (state : State)
  /-- The tokens ended inside a unit; `opened` is where the unit began. -/
  | unexpectedEnd (opened : Position)
  | malformed (fault : Malformation) (pos : Position)
  deriving DecidableEq

def ParseError.message : ParseError → String
  | .unexpectedToken token state =>
    "syntax error at " ++ token.pos.shown ++ ": unexpected " ++ token.kind.shown ++
      " (state " ++ Text.decimalNat state ++ ")"
  | .unexpectedEnd opened =>
    "unexpected end of input; block opened at " ++ opened.shown ++ " is not closed"
  | .malformed fault pos =>
    "malformed " ++ fault.subject ++ " node at " ++ pos.shown ++ ": " ++ fault.reason

end PageTemplate
