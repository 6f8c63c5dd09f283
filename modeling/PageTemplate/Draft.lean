import PageTemplate.Evaluation

/-!
Pages in the making. Every tree of a file goes onto all of its pages before the next one, and the
pages share what they export, so a page sees what the earlier trees have exported on any of them.
-/

namespace PageTemplate

structure Draft where
  document : Document
  /-- What the trees so far have left for those to come. -/
  session : Session
  text : String := ""

namespace Draft

def blank (document : Document) : Draft where
  document := document
  session :=
    { context :=
        .ofList [("curPage", .int document.page), ("numPages", .int document.pageCount)] }

def add (world : World) (node : Node) (draft : Draft) (exports : ExportStore) :
    Except EvalError Draft × ExportStore :=
  let before := { draft.session with exports := exports }
  let (text, after) := (Evaluation.render world draft.document node).run before
  (text.map fun text => { draft with session := after, text := draft.text ++ text },
    after.exports)

def addToEach (world : World) (node : Node) :
    List Draft → ExportStore → Except EvalError (List Draft) × ExportStore
  | [], exports => (.ok [], exports)
  | draft :: drafts, exports =>
    match draft.add world node exports with
    | (.error e, exports) => (.error e, exports)
    | (.ok draft, exports) =>
      let (drafts, exports) := addToEach world node drafts exports
      (drafts.map (draft :: ·), exports)

def addAll (world : World) :
    List Node → List Draft → ExportStore → Except EvalError (List Draft) × ExportStore
  | [], drafts, exports => (.ok drafts, exports)
  | node :: nodes, drafts, exports =>
    match addToEach world node drafts exports with
    | (.error e, exports) => (.error e, exports)
    | (.ok drafts, exports) => addAll world nodes drafts exports

end Draft
end PageTemplate
