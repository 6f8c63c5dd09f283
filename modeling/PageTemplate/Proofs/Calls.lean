import Mathlib.Logic.Relation
import PageTemplate.Proofs.Completion

namespace PageTemplate

attribute [local irreducible] Table.action? Table.goto? Table.next? Table.underWay

namespace Parser

inductive Call
  | push (token : Token)
  | finish

def call (parser : Parser) : Call → Except ParseError (Option Node) × Parser
  | .push token => parser.push token
  | .finish => (parser.finish.1.map fun _ => none, parser.finish.2)

def after (parser : Parser) (calls : List Call) : Parser :=
  calls.foldl (fun parser call => (parser.call call).2) parser

/-- The errors of the input: a token out of place, or an end inside a unit. -/
def Call.Blames : Call → ParseError → Prop
  | .push token, e => ∃ state, e = .unexpectedToken token state
  | .finish, e => ∃ opened, e = .unexpectedEnd opened

end Parser

namespace Stack

def Rebuilds (t : Terminal) (pos : Position) (frames result : List Frame) : Prop :=
  ∃ rule, Table.action? (top frames) t = some (.reduce rule) ∧ reduce rule frames pos = .ok result

/-- However far the rebuilding has come, its next step can be carried out. -/
def Rebuildable (t : Terminal) (pos : Position) (frames : List Frame) : Prop :=
  ∀ mid, Relation.ReflTransGen (Rebuilds t pos) frames mid →
    ∀ rule, Table.action? (top mid) t = some (.reduce rule) →
      ∃ result, reduce rule mid pos = .ok result

def Judges (states next : List State) : Prop :=
  ∃ rule state, Table.action? (states.headD 0) .endOfInput = some (.reduce rule) ∧
    rule.rhs.length ≤ states.length ∧
      Table.goto? ((states.drop rule.rhs.length).headD 0) rule.lhs = some state ∧
        next = state :: states.drop rule.rhs.length

/-- However far the judging has come, there are states enough for its next step, and the table leads
on from there. -/
def Judgeable (states : List State) : Prop :=
  ∀ mid, Relation.ReflTransGen Judges states mid →
    ∀ rule, Table.action? (mid.headD 0) .endOfInput = some (.reduce rule) →
      rule.rhs.length ≤ mid.length ∧
        ∃ state, Table.goto? ((mid.drop rule.rhs.length).headD 0) rule.lhs = some state

end Stack

namespace Framed

variable {pos : Position} {cells : List Cell} {frames : List Frame} {t : Terminal} {rule : Rule}

/-- A rebuilding step goes from linked cells to linked cells. -/
theorem reduce_ok (h : Framed pos cells frames) (hlinked : Cells.Linked cells)
    (asks : Table.action? (Stack.top frames) t = some (.reduce rule)) :
    ∃ result after, Stack.reduce rule frames pos = .ok result ∧ Framed pos after result ∧
      Cells.Linked after := by
  rw [h.top_eq] at asks
  obtain ⟨above, below, whole, next, splits, gathers, leads⟩ := hlinked.reduces asks
  obtain ⟨result, hresult, hframed⟩ := h.reduce splits gathers leads
  rw [splits] at hlinked
  exact ⟨result, _, hresult, hframed, .cons hlinked.drop (Table.next_phrase.2 leads)⟩

/-- A parser with linked cells can rebuild whatever the table asks for. -/
theorem rebuildable (h : Framed pos cells frames) (hlinked : Cells.Linked cells) :
    Stack.Rebuildable t pos frames := by
  intro mid hmid
  -- what the steps keep: the frames are those of linked cells
  have hkeeps : ∃ after, Framed pos after mid ∧ Cells.Linked after := by
    induction hmid with
    | refl => exact ⟨cells, h, hlinked⟩
    | tail _ step ih =>
      obtain ⟨now, hframed, hnow⟩ := ih
      obtain ⟨rule, asks, hreduce⟩ := step
      obtain ⟨result, after, hresult, hafter, hlast⟩ := hframed.reduce_ok hnow asks
      rw [hreduce] at hresult
      cases hresult
      exact ⟨after, hafter, hlast⟩
  obtain ⟨after, hframed, hafter⟩ := hkeeps
  intro rule asks
  obtain ⟨result, _, hresult, -⟩ := hframed.reduce_ok hafter asks
  exact ⟨result, hresult⟩

end Framed

namespace Cells

variable {cells : List Cell} {rule : Rule}

/-- A step of judging goes from the states of linked cells to those of linked cells. -/
theorem Linked.judges (h : Linked cells)
    (asks : Table.action? ((cells.map Cell.state).headD 0) .endOfInput = some (.reduce rule)) :
    ∃ state after, rule.rhs.length ≤ (cells.map Cell.state).length ∧
      Table.goto? (((cells.map Cell.state).drop rule.rhs.length).headD 0) rule.lhs = some state ∧
        Linked after ∧
          after.map Cell.state = state :: (cells.map Cell.state).drop rule.rhs.length := by
  rw [headD_map] at asks
  obtain ⟨above, below, whole, state, rfl, gathers, leads⟩ := h.reduces asks
  obtain ⟨hdrop, hlength⟩ := @Gathers.drop_map rule above below whole gathers
  have hgoto := leads
  rw [← headD_map, ← hdrop] at hgoto
  have hlinked : Linked (⟨state, .phrase rule.lhs, .node rule rfl whole⟩ :: below) :=
    .cons h.drop (Table.next_phrase.2 leads)
  exact ⟨state, _, hlength, hgoto, hlinked, by rw [hdrop]; rfl⟩

/-- The states of linked cells are enough to judge the end of the input. -/
theorem Linked.judgeable (h : Linked cells) : Stack.Judgeable (cells.map Cell.state) := by
  intro mid hmid
  have hkeeps : ∃ after, Linked after ∧ after.map Cell.state = mid := by
    induction hmid with
    | refl => exact ⟨cells, h, rfl⟩
    | tail _ step ih =>
      obtain ⟨now, hnow, rfl⟩ := ih
      obtain ⟨rule, state, asks, -, leads, rfl⟩ := step
      obtain ⟨state', after, -, leads', hafter, hstates⟩ := hnow.judges asks
      rw [leads] at leads'
      cases leads'
      exact ⟨after, hafter, hstates⟩
  obtain ⟨after, hafter, rfl⟩ := hkeeps
  intro rule asks
  obtain ⟨state, _, hlength, leads, -⟩ := hafter.judges asks
  exact ⟨hlength, state, leads⟩

end Cells

namespace Parser

open Cells

variable {parser : Parser} {cells : List Cell}

/-- A call leaves the parser at the cells of a unit under way or between units. -/
theorem Holds.call (h : parser.Holds cells) (call : Call) :
    ∃ after, (parser.call call).2.Holds after := by
  cases call with
  | push token =>
    rcases h.push_outcome token with ⟨_, after, htoken, hafter⟩ | ⟨_, _, htoken, hafter⟩ |
      ⟨state, htoken⟩
    · exact ⟨after, by rwa [Parser.call, htoken]⟩
    · exact ⟨[], by rwa [Parser.call, htoken]⟩
    · exact ⟨[], by rw [Parser.call, htoken]; exact idle_holds⟩
  | finish =>
    rw [Parser.call, finish]
    split
    · exact ⟨cells, h⟩
    · exact ⟨[], idle_holds⟩

/-- The parser has reached some cells after every history of calls. -/
theorem Holds.after (h : parser.Holds cells) (calls : List Call) :
    ∃ last, (parser.after calls).Holds last := by
  induction calls generalizing parser cells with
  | nil => exact ⟨cells, h⟩
  | cons call calls ih =>
    obtain ⟨next, hnext⟩ := h.call call
    exact ih hnext

/-- From any cells, a call that fails blames the input. -/
theorem Holds.blames (h : parser.Holds cells) {call : Call} {e : ParseError}
    (hcall : (parser.call call).1 = .error e) : call.Blames e := by
  cases call with
  | push token => exact (h.push_error (Prod.ext hcall rfl)).1
  | finish =>
    rw [Parser.call, finish] at hcall
    split at hcall
    · cases hcall
    · cases hcall
      exact ⟨_, rfl⟩

end Parser

/-- After any calls, failed ones among them, a call fails at its token or at an end inside a unit
only. All rebuilding steps before a token can be carried out; so can those that judge whether a unit
ends with it, and where the judgment is that it does, the unit is rebuilt into its one tree. -/
theorem calls_blame_input (calls : List Parser.Call) :
    let parser := Parser.idle.after calls
    (∀ call e, (parser.call call).1 = .error e → call.Blames e) ∧
      ∀ token t, token.terminal? = some t → Stack.Rebuildable t token.pos parser.frames ∧
        ∀ frames, Stack.feed parser.frames t token = .ok frames →
          Stack.Judgeable (Stack.states frames) ∧
            (Stack.accepts (Stack.states frames) = true → ∀ opened,
              Stack.Rebuildable .endOfInput opened frames ∧
                ∃ root, Stack.complete frames opened = .ok root) := by
  intro parser
  obtain ⟨cells, hholds⟩ := Parser.idle_holds.after calls
  refine ⟨fun call e hcall => hholds.blames hcall, fun token t read => ?_⟩
  have hframed := hholds.framed token.pos
  refine ⟨hframed.rebuildable hholds.linked, fun frames hfeed => ?_⟩
  -- what has been fed stands on linked cells again
  have hafter : ∃ after, Cells.Linked after ∧ ∀ ahead, Framed ahead after frames := by
    rcases hframed.feed read hholds.linked with
      ⟨after, result, hresult, hframes, hrun, -⟩ | ⟨⟨state, herror⟩, -⟩
    · rw [hfeed] at hresult
      cases hresult
      exact ⟨after, (hrun []).linked hholds.linked, hframes⟩
    · rw [hfeed] at herror
      cases herror
  obtain ⟨after, hlinked, hframes⟩ := hafter
  have hstates : Stack.states frames = after.map Cell.state := (hframes token.pos).states_eq
  refine ⟨hstates ▸ hlinked.judgeable, fun haccepts opened => ?_⟩
  obtain ⟨d, hwhole⟩ := Cells.run_of_accepts hlinked (hstates ▸ haccepts)
  obtain ⟨root, hroot, -⟩ := Framed.complete hwhole rfl rfl (hframes opened)
  exact ⟨(hframes opened).rebuildable hlinked, root, hroot⟩

end PageTemplate
