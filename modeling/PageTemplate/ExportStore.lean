import PageTemplate.Context
import PageTemplate.Path

namespace PageTemplate

structure ExportStore where
  files : List (List Path.Component × Context)

namespace ExportStore

def empty : ExportStore := ⟨[]⟩

def insert (store : ExportStore) (file : Path) (name : List String) (value : Value) :
    ExportStore :=
  ⟨Keyed.update file.components (fun scope => (scope.getD .empty).insert name value) store.files⟩

def get (store : ExportStore) (file : Path) : Context :=
  (store.files.lookup file.components).getD .empty

def contains (store : ExportStore) (file : Path) : Bool :=
  (store.files.lookup file.components).isSome

def size (store : ExportStore) : Nat := store.files.length

end ExportStore
end PageTemplate
