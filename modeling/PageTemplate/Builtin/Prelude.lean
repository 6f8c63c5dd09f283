import PageTemplate.Builtin
import PageTemplate.Pagination
import PageTemplate.Value.Shown

namespace PageTemplate.Builtin

def intArg (function : String) (args : List Value) (index : Nat) : Except EvalError Int64 :=
  match args[index]? with
  | none => .error (.invalidArgument function (.missing (index + 1)))
  | some value =>
    match value.coerceInt? with
    | some n => .ok n
    | none => .error (.invalidArgument function (.notAnInt (index + 1) value.type))

def strArg (function : String) (args : List Value) (index : Nat) : Except EvalError String :=
  match args[index]? with
  | none => .error (.invalidArgument function (.missing (index + 1)))
  | some (.str s) => .ok s
  | some value => .error (.invalidArgument function (.notAString (index + 1) value.type))

def print : Builtin where
  name := "print"
  arity := none
  implicit := []
  run _ args := pure (.str (String.join (args.map Value.text)))

def len : Builtin where
  name := "len"
  arity := some 1
  implicit := []
  run _ args :=
    match args with
    | .container scope :: _ => pure (.int (clampInt64 scope.size))
    | .str s :: _ => pure (.int (clampInt64 s.length))
    | value :: _ => throw (.invalidArgument "len" (.noLength value.type))
    | [] => throw (.invalidArgument "len" (.missing 1))

def template : Builtin where
  name := "template"
  arity := some 1
  implicit := []
  run host args := do
    let key ← Eval.ofExcept (strArg "template" args 0)
    return .str (← host.inclusion key (← get).context)

def paginate : Builtin where
  name := "paginate"
  arity := some 3
  implicit := [.currentPage]
  run host args := do
    let page ← Eval.ofExcept (intArg "paginate" args 0)
    let contentPath ← Eval.ofExcept (strArg "paginate" args 1)
    let key ← Eval.ofExcept (strArg "paginate" args 2)
    let perPage ← Eval.ofExcept (intArg "paginate" args 3)
    let contents ← host.exported contentPath
    match Pagination.pageContext contents page perPage with
    | .error fault => throw (.invalidArgument "paginate" fault)
    | .ok known => return .str (← host.inclusion key ((← get).context.merge known))

def pagesBefore : Builtin where
  name := "pagesBefore"
  arity := some 1
  implicit := [.currentPage, .inputPath]
  run host args := do
    let page ← Eval.ofExcept (intArg "pagesBefore" args 0)
    let input ← Eval.ofExcept (strArg "pagesBefore" args 1)
    let count ← Eval.ofExcept (intArg "pagesBefore" args 2)
    let href := host.document.map.href (.ofText input)
    return .container (Pagination.pagesBefore page count href)

def pagesAfter : Builtin where
  name := "pagesAfter"
  arity := some 1
  implicit := [.currentPage, .pageCount, .inputPath]
  run host args := do
    let page ← Eval.ofExcept (intArg "pagesAfter" args 0)
    let last ← Eval.ofExcept (intArg "pagesAfter" args 1)
    let input ← Eval.ofExcept (strArg "pagesAfter" args 2)
    let count ← Eval.ofExcept (intArg "pagesAfter" args 3)
    let href := host.document.map.href (.ofText input)
    return .container (Pagination.pagesAfter page last count href)

end Builtin

def Builtins.prelude : Builtins :=
  [Builtin.print, Builtin.len, Builtin.template, Builtin.paginate, Builtin.pagesBefore,
    Builtin.pagesAfter].foldl Builtins.define .empty

end PageTemplate
