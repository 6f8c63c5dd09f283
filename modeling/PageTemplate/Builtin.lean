import PageTemplate.Evaluation.Session

namespace PageTemplate

inductive Implicit
  | currentPage | pageCount | inputPath
  deriving DecidableEq

def Implicit.value (document : Document) : Implicit → Value
  | .currentPage => .int document.page
  | .pageCount => .int document.pageCount
  | .inputPath => .str document.path.shown

structure Host where
  document : Document
  /-- The exports of the files under a content path. -/
  exported : String → Eval (List Context)
  /-- The text of a template in a scope. -/
  inclusion : String → Context → Eval String

structure Builtin where
  name : String
  /-- The number of arguments to be written down; nothing stands for any number. -/
  arity : Option Nat
  implicit : List Implicit
  run : Host → List Value → Eval Value

structure Builtins where
  functions : List (String × Builtin)

namespace Builtins

def empty : Builtins := ⟨[]⟩

def define (builtins : Builtins) (builtin : Builtin) : Builtins :=
  ⟨Keyed.set builtin.name builtin builtins.functions⟩

def get? (builtins : Builtins) (name : String) : Option Builtin := builtins.functions.lookup name

def size (builtins : Builtins) : Nat := builtins.functions.length

end Builtins
end PageTemplate
