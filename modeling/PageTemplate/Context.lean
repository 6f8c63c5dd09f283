import PageTemplate.Keyed
import PageTemplate.Text.Split
import PageTemplate.Value

namespace PageTemplate
namespace Context

def empty : Context := ⟨[]⟩

def get? (scope : Context) (name : String) : Option Value := scope.entries.lookup name

def at? (scope : Context) : List String → Option Value
  | [] => none
  | [name] => scope.get? name
  | name :: rest =>
    match scope.get? name with
    | some (.container inner) => inner.at? rest
    | _ => none

def lookup (scope : Context) (dotted : String) : Option Value := scope.at? (Text.split '.' dotted)

def set (scope : Context) (name : String) (value : Value) : Context :=
  ⟨Keyed.set name value scope.entries⟩

/-- The scope that a binding further inside goes to: a plain value gives way to an empty scope. -/
def nested : Option Value → Context
  | some (.container scope) => scope
  | _ => empty

def insert (scope : Context) : List String → Value → Context
  | [], _ => scope
  | [name], value => scope.set name value
  | name :: rest, value =>
    ⟨Keyed.update name (fun old => .container ((nested old).insert rest value)) scope.entries⟩

def setAll (scope : Context) (bindings : List (String × Value)) : Context :=
  bindings.foldl (fun scope binding => scope.set binding.1 binding.2) scope

def ofList (bindings : List (String × Value)) : Context := empty.setAll bindings

theorem setAll_of_nodup {entries bindings : List (String × Value)}
    (h : ((entries ++ bindings).map Prod.fst).Nodup) :
    setAll ⟨entries⟩ bindings = ⟨entries ++ bindings⟩ := by
  induction bindings generalizing entries with
  | nil =>
    rw [List.append_nil]
    rfl
  | cons binding rest ih =>
    obtain ⟨name, value⟩ := binding
    have hnew : name ∉ entries.map Prod.fst := by
      rw [List.map_append, List.map_cons, List.nodup_append] at h
      intro hmem
      exact h.2.2 name hmem name List.mem_cons_self rfl
    have hset : set ⟨entries⟩ name value = ⟨entries ++ [(name, value)]⟩ :=
      congrArg Context.mk (Keyed.update_of_not_mem _ hnew)
    rw [List.append_cons] at h ⊢
    rw [← ih h, ← hset]
    rfl

/-- Bindings of different names are the entries of their scope. -/
theorem ofList_of_nodup {bindings : List (String × Value)} (h : (bindings.map Prod.fst).Nodup) :
    ofList bindings = ⟨bindings⟩ :=
  setAll_of_nodup h

/-- Both sets of entries; under a common name the right one counts, nested scopes included. -/
def merge (left right : Context) : Context := left.setAll right.entries

def names (scope : Context) : List String := scope.entries.map Prod.fst

def values (scope : Context) : List Value := scope.entries.map Prod.snd

def size (scope : Context) : Nat := scope.entries.length

end Context

mutual

/-- Equality of values, where the order of the entries of a scope does not matter. -/
def Value.same : Value → Value → Bool
  | .int a, .int b => a == b
  | .str a, .str b => a == b
  | .bool a, .bool b => a == b
  | .container a, .container b => a.same b
  | _, _ => false

def Context.same : Context → Context → Bool
  | ⟨left⟩, right => left.length == right.size && Context.within left right

def Context.within : List (String × Value) → Context → Bool
  | [], _ => true
  | (name, value) :: rest, scope =>
    (match scope.get? name with
      | some other => value.same other
      | none => false) && Context.within rest scope

end
end PageTemplate
