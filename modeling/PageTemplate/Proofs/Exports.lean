import Mathlib
import PageTemplate.Proofs.Bindings
import PageTemplate.Proofs.DottedNames

namespace PageTemplate

theorem Session.bindAll_exports {session : Session} (h : session.exporting = true) (file : Path)
    (bindings : List Binding) :
    (session.bindAll file bindings).exports = session.exports.bindAll file bindings :=
  if_pos h

open Evaluation in
/-- A document that exports leaves its scope with its assignments made in it, in order, and its
exports with the same assignments made in the same order. Without any there are exports only if
there were before. This holds up to the first failure as well, and if the document is told to stop
at some point. -/
theorem exports_mirror_assignments {world : World} (hprelude : world.builtins = .prelude)
    (document : Document) (nodes : List Node) (session : Session)
    (hexporting : session.exporting = true) :
    let made := assignments world document nodes session
    let before := session.exports.exported? document.path
    let after := ((renderAll world document nodes).run session).2
    after.context = session.context.bindAll made ∧
    (made = [] → after.exports.exported? document.path = before) ∧
    (made ≠ [] → after.exports.exported? document.path =
      some ((before.getD .empty).bindAll made)) ∧
    ∀ name ∈ made.map Prod.fst,
      after.context.at? name = (after.exports.get document.path).at? name := by
  intro made before after
  have hrecorded := renderAll_recorded (world.hides_eq document.path) hprelude nodes
  have hexports : after.exports = session.exports.bindAll document.path made :=
    (hrecorded.exports_eq session).trans (Session.bindAll_exports hexporting _ _)
  have hcontext : after.context = session.context.bindAll made := hrecorded.context_eq session
  refine ⟨hcontext, fun hmade => ?_, fun hmade => ?_, fun name hname => ?_⟩
  · rw [hexports, hmade]
    rfl
  · rw [hexports, ExportStore.exported?_bindAll hmade]
  · rw [hcontext, hexports, ExportStore.get_bindAll]
    exact Context.at?_bindAll_of_mem hname _ _

/-- The trees of `{{ a = 1; a.b = 2 }}{{ if k }}{{ c.d = k }}{{ end }}` and, on the next line, of
`{{ for i in list }}{{ h = i }}{{ end }}{{: 1 + (e = 3) }}`. -/
def assigningNodes : List Node :=
  [⟨.block, [⟨.statementList, [⟨.expression .assignment,
      [.leaf (.varName ["a"]) ⟨1, 4⟩, .leaf (.numberLiteral 1) ⟨1, 8⟩], ⟨1, 4⟩⟩,
    ⟨.expression .assignment,
      [.leaf (.varName ["a", "b"]) ⟨1, 11⟩, .leaf (.numberLiteral 2) ⟨1, 17⟩], ⟨1, 11⟩⟩],
    ⟨1, 4⟩⟩], ⟨1, 1⟩⟩,
  ⟨.ifStatement, [.leaf (.identifier "if") ⟨1, 24⟩, .leaf (.varName ["k"]) ⟨1, 27⟩,
    ⟨.content, [⟨.block, [⟨.statementList, [⟨.expression .assignment,
      [.leaf (.varName ["c", "d"]) ⟨1, 34⟩, .leaf (.varName ["k"]) ⟨1, 40⟩], ⟨1, 34⟩⟩],
      ⟨1, 34⟩⟩], ⟨1, 31⟩⟩], ⟨1, 31⟩⟩,
    .leaf .elseIfList ⟨1, 21⟩, .leaf (.identifier "end") ⟨1, 47⟩], ⟨1, 21⟩⟩,
  ⟨.forLoop, [.leaf (.identifier "i") ⟨2, 8⟩, .leaf (.varName ["list"]) ⟨2, 13⟩,
    ⟨.content, [⟨.block, [⟨.statementList, [⟨.expression .assignment,
      [.leaf (.varName ["h"]) ⟨2, 23⟩, .leaf (.varName ["i"]) ⟨2, 27⟩], ⟨2, 23⟩⟩],
      ⟨2, 23⟩⟩], ⟨2, 20⟩⟩], ⟨2, 20⟩⟩], ⟨2, 1⟩⟩,
  ⟨.printBlock, [⟨.expression .add, [.leaf (.numberLiteral 1) ⟨2, 44⟩,
    .leaf (.operator "+") ⟨2, 46⟩, ⟨.expression .assignment,
      [.leaf (.varName ["e"]) ⟨2, 49⟩, .leaf (.numberLiteral 3) ⟨2, 53⟩], ⟨2, 49⟩⟩],
    ⟨2, 44⟩⟩], ⟨2, 40⟩⟩]

open Evaluation in
/-- The last node fails when it has bound `e`, and `h` stays in the loop. The scope has other values
under `c` than the exports; `c.d` is the same in both. Told to stop when it has come to `k`, the
document has bound the first two names only. -/
theorem exports_mirror_assignments_before_failure :
    let world : World := {}
    let document : Document := { path := .ofText "p" }
    let session : Session :=
      { context := .ofList [("k", .bool true), ("list", .container (.ofList [("i", .int 7)])),
          ("c", .container (.ofList [("z", .int 0)]))]
        exports := ExportStore.empty.insert (.ofText "p") ["c"] (.str "old") }
    let made : List Binding := [(["a"], .int 1), (["a", "b"], .int 2), (["c", "d"], .bool true),
      (["e"], .int 3)]
    let outcome := (renderAll world document assigningNodes).run session
    let hurried := (renderAll world document assigningNodes).run
      { session with patience := some 6 }
    assignments world document assigningNodes session = made ∧
      outcome.1 = .error (.noValue ⟨2, 49⟩) ∧
      outcome.2.context = session.context.bindAll made ∧
      outcome.2.exports.exported? (.ofText "p") =
        some ((Context.ofList [("c", .str "old")]).bindAll made) ∧
      outcome.2.context.at? ["c", "d"] = (outcome.2.exports.get (.ofText "p")).at? ["c", "d"] ∧
      hurried.1 = .error .interrupted ∧
      hurried.2.context = session.context.bindAll (made.take 2) ∧
      hurried.2.exports.exported? (.ofText "p") =
        some ((Context.ofList [("c", .str "old")]).bindAll (made.take 2)) := by
  intro world document session made outcome hurried
  have hmade : assignments world document assigningNodes session = made := by
    cbv
  have hfew : assignments world document assigningNodes { session with patience := some 6 } =
      made.take 2 := by
    cbv
  have herror : outcome.1 = .error (.noValue ⟨2, 49⟩) := by
    cbv
  have hstopped : hurried.1 = .error .interrupted := by
    cbv
  have hbefore : session.exports.exported? (.ofText "p") = some (.ofList [("c", .str "old")]) := by
    cbv
  have hmirror :=
    exports_mirror_assignments (rfl : world.builtins = .prelude) document assigningNodes session rfl
  rw [hmade, hbefore] at hmirror
  obtain ⟨hcontext, -, hexports, hnames⟩ := hmirror
  have hmirror' := exports_mirror_assignments (rfl : world.builtins = .prelude) document
    assigningNodes { session with patience := some 6 } rfl
  rw [hfew, hbefore] at hmirror'
  obtain ⟨hcontext', -, hexports', -⟩ := hmirror'
  exact ⟨hmade, herror, hcontext, hexports (List.cons_ne_nil _ _), hnames ["c", "d"] (by decide),
    hstopped, hcontext', hexports' (List.cons_ne_nil _ _)⟩

end PageTemplate
