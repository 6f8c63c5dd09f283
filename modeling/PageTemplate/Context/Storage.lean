import PageTemplate.Context

/-!
How scopes are stored. An entry is either a plain value or a nested scope, and dotted names lead
through nested scopes only. So a container is stored as a nested scope wherever one is bound: in a
plain value it could be read as a whole, but nothing inside it would be found, and a binding further
inside would take its place.
-/

namespace PageTemplate

namespace Storage

mutual

inductive Value
  | int (n : Int64)
  | str (s : String)
  | bool (b : Bool)
  | container (scope : Scope)

inductive Entry
  | plain (value : Value)
  | nested (scope : Scope)

structure Scope where
  entries : List (String × Entry)

end

namespace Entry

def toValue : Entry → Value
  | .plain value => value
  | .nested scope => .container scope

def ofValue : Value → Entry
  | .container scope => .nested scope
  | value => .plain value

theorem toValue_ofValue (value : Value) : (ofValue value).toValue = value := by
  cases value <;> rfl

end Entry

namespace Scope

def empty : Scope := ⟨[]⟩

def names (scope : Scope) : List String := scope.entries.map Prod.fst

def values (scope : Scope) : List Value := scope.entries.map fun entry => entry.2.toValue

def get? (scope : Scope) (name : String) : Option Entry := scope.entries.lookup name

def at? (scope : Scope) : List String → Option Value
  | [] => none
  | [name] => (scope.get? name).map Entry.toValue
  | name :: rest =>
    match scope.get? name with
    | some (.nested inner) => inner.at? rest
    | _ => none

def set (scope : Scope) (name : String) (value : Value) : Scope :=
  ⟨Keyed.set name (.ofValue value) scope.entries⟩

/-- The scope that a binding further inside goes to: a plain value gives way to an empty scope,
whatever it is. -/
def opened : Option Entry → Scope
  | some (.nested scope) => scope
  | _ => empty

def insert (scope : Scope) : List String → Value → Scope
  | [], _ => scope
  | [name], value => scope.set name value
  | name :: rest, value =>
    ⟨Keyed.update name (fun old => .nested ((opened old).insert rest value)) scope.entries⟩

def setAll (scope : Scope) (bindings : List (String × Value)) : Scope :=
  bindings.foldl (fun scope binding => scope.set binding.1 binding.2) scope

def ofList (bindings : List (String × Value)) : Scope := empty.setAll bindings

def merge (left right : Scope) : Scope :=
  ⟨right.entries.foldl (fun entries entry => Keyed.set entry.1 entry.2 entries) left.entries⟩

theorem get?_set (scope : Scope) (name : String) (value : Value) (other : String) :
    (scope.set name value).get? other =
      if other = name then some (.ofValue value) else scope.get? other :=
  Keyed.lookup_update name _ scope.entries other

theorem at?_empty (path : List String) : empty.at? path = none := by
  rcases path with _ | ⟨name, _ | ⟨next, rest⟩⟩ <;> rfl

section

variable {rest : List String} (h : rest ≠ [])

include h

theorem at?_cons (scope : Scope) (name : String) :
    scope.at? (name :: rest) = (opened (scope.get? name)).at? rest := by
  rw [at?]
  · rcases scope.get? name with _ | _ | inner
    case some.nested => rfl
    all_goals exact (at?_empty rest).symm
  · exact h

theorem insert_cons (scope : Scope) (name : String) (value : Value) :
    scope.insert (name :: rest) value =
      ⟨Keyed.update name (fun old => .nested ((opened old).insert rest value)) scope.entries⟩ := by
  rw [insert]
  exact h

end

end Scope
end Storage

mutual

def Value.stored : Value → Storage.Value
  | .int n => .int n
  | .str s => .str s
  | .bool b => .bool b
  | .container scope => .container scope.stored

/-- How a scope of the evaluation is stored. -/
def Context.stored : Context → Storage.Scope
  | ⟨entries⟩ => ⟨Context.storedEntries entries⟩

def Context.storedEntries : List (String × Value) → List (String × Storage.Entry)
  | [] => []
  | (name, value) :: rest => (name, .ofValue value.stored) :: Context.storedEntries rest

end

def Value.entry (value : Value) : Storage.Entry := .ofValue value.stored

end PageTemplate
