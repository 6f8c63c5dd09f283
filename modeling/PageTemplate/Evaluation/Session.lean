import PageTemplate.EvalError
import PageTemplate.ExportStore
import PageTemplate.PageMap

namespace PageTemplate

structure Document where
  /-- The file that the document is read from, under which it exports. -/
  path : Path
  page : Int64 := 1
  pageCount : Int64 := 1
  map : PageMap := {}

structure Session where
  context : Context := .empty
  /-- Whether bindings are exported. -/
  exporting : Bool := true
  /-- The inclusions under way. -/
  depth : Nat := 0
  exports : ExportStore := .empty
  /-- How many more times the evaluation will find that it may go on, if it is ever told to stop.
  That is decided outside, at any moment, and then for good. -/
  patience : Option Nat := none

/-- The session after it has been asked this many times whether to go on. -/
def Session.waited (session : Session) (checks : Nat) : Session :=
  { session with patience := session.patience.map (· - checks) }

/-- A step of evaluation. What it has done to the session stays done where it fails. -/
abbrev Eval (α : Type) := ExceptT EvalError (StateM Session) α

namespace Eval

def run {α : Type} (step : Eval α) (session : Session) : Except EvalError α × Session :=
  StateT.run (ExceptT.run step) session

def ofExcept {α : Type} : Except EvalError α → Eval α
  | .ok a => pure a
  | .error e => throw e

def checkInterrupt : Eval Unit := do
  let session ← get
  set (session.waited 1)
  if session.patience = some 0 then throw .interrupted

/-- Bind a value in the current scope, and among the exports of the document if the scope is its
own. -/
def assign (document : Document) (target : List String) (value : Value) : Eval Unit :=
  modify fun session =>
    { session with
      exports :=
        if session.exporting then session.exports.insert document.path target value
        else session.exports
      context := session.context.insert target value }

/-- Run a step in a scope of its own, whose bindings are neither kept nor exported. -/
def inScope {α : Type} (scope : Context) (step : Eval α) : Eval α := do
  let outer ← get
  set { outer with context := scope, exporting := false }
  let restore : Eval Unit :=
    modify fun inner => { inner with context := outer.context, exporting := outer.exporting }
  tryCatch (do let a ← step; restore; pure a) fun e => do restore; throw e

def deeper {α : Type} (step : Eval α) : Eval α := do
  modify fun session => { session with depth := session.depth + 1 }
  let restore : Eval Unit := modify fun session => { session with depth := session.depth - 1 }
  tryCatch (do let a ← step; restore; pure a) fun e => do restore; throw e

end Eval
end PageTemplate
