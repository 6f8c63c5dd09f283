import PageTemplate.Keyed
import PageTemplate.Node

namespace PageTemplate

structure TemplateLibrary where
  templates : List (String × List Node)

namespace TemplateLibrary

def empty : TemplateLibrary := ⟨[]⟩

/-- Add nodes at the end of a template. A key without nodes stands for an empty template. -/
def append (library : TemplateLibrary) (key : String) (nodes : List Node) : TemplateLibrary :=
  ⟨Keyed.update key (fun old => old.getD [] ++ nodes) library.templates⟩

def declare (library : TemplateLibrary) (key : String) : TemplateLibrary := library.append key []

def get? (library : TemplateLibrary) (key : String) : Option (List Node) :=
  library.templates.lookup key

def size (library : TemplateLibrary) : Nat := library.templates.length

end TemplateLibrary
end PageTemplate
