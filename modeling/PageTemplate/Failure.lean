import PageTemplate.EvalError
import PageTemplate.FileFault
import PageTemplate.ParseError
import PageTemplate.SiteConfig
import PageTemplate.Token.LexError

namespace PageTemplate

inductive Failure
  | lex (error : LexError)
  | parse (error : ParseError)
  | eval (error : EvalError)
  | io (path : Path) (fault : FileFault)
  | config (path : Path) (fault : ConfigFault)
  /-- A failure in the processing of a file. -/
  | inFile (path : Path) (cause : Failure)
  deriving DecidableEq

namespace Failure

def message : Failure → String
  | .lex error => "lex error: " ++ error.message
  | .parse error => "parse error: " ++ error.message
  | .eval error => "evaluation error: " ++ error.message
  | .io path fault => "I/O error on " ++ path.shown ++ ": " ++ fault.message
  | .config path fault => "invalid configuration in " ++ path.shown ++ ": " ++ fault.message
  | .inFile path cause => path.shown ++ ": " ++ cause.message

def located (path : Path) : Failure → Failure
  | .inFile first cause => .inFile first cause
  | cause => .inFile path cause

def root : Failure → Failure
  | .inFile _ cause => cause.root
  | cause => cause

def isIo (failure : Failure) : Bool :=
  match failure.root with
  | .io _ _ => true
  | _ => false

def causes : Failure → List String
  | .lex error => [(lex error).message, error.message]
  | .parse error => [(parse error).message, error.message]
  | .eval error => [(eval error).message, error.message]
  | .io path fault => [(io path fault).message, fault.message]
  | .config path fault => [(config path fault).message]
  | .inFile path cause => (inFile path cause).message :: cause.causes

end Failure
end PageTemplate
