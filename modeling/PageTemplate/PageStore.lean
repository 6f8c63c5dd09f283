import PageTemplate.Path

namespace PageTemplate

structure PageStore where
  pages : List (Path × String)

namespace PageStore

def empty : PageStore := ⟨[]⟩

def insertPage (path : Path) (text : String) : List (Path × String) → List (Path × String)
  | [] => [(path, text)]
  | (other, old) :: rest =>
    match path.compare other with
    | .lt => (path, text) :: (other, old) :: rest
    | .eq => (other, text) :: rest
    | .gt => (other, old) :: insertPage path text rest

/-- Add a page. A page that is there under the same components gets the new text and keeps its
path. -/
def insert (store : PageStore) (path : Path) (text : String) : PageStore :=
  ⟨insertPage path text store.pages⟩

end PageStore
end PageTemplate
