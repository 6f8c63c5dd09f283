import Mathlib.Data.Fintype.BigOperators
import Mathlib.Tactic.DeriveFintype
import PageTemplate.Proofs.Progress
import PageTemplate.Rendering

/-!
A file made into pages by tasks that run at the same time: one reads tokens, one builds trees, and
each page has one that evaluates the trees and one that puts the texts together. Where there are
several pages, a further task passes each tree on to all of them. The pages are handed over when all
tasks have ended without a failure.
-/

namespace PageTemplate.Stages

inductive Task (n : Nat)
  | lexer | parser | fan
  | evaluator (k : Fin n)
  | assembler (k : Fin n)
  deriving DecidableEq, Fintype

inductive Channel (n : Nat)
  | tokens | nodes
  | branch (k : Fin n)
  | texts (k : Fin n)
  | pages
  deriving DecidableEq, Fintype

/-- What goes through a channel. A finished page has its number with it. -/
def Item {n : Nat} : Channel n → Type
  | .tokens => Token
  | .nodes | .branch _ => Node
  | .texts _ => String
  | .pages => Nat × Page

structure Lexing where
  lexer : Lexer
  pending : List Token
  lines : List (List Char)

inductive Parsing
  | reading (parser : Parser)
  | holding (root : Node) (parser : Parser)
  | refused (error : ParseError)
  | finished

inductive Fanning (n : Nat)
  | reading (many : n ≠ 1)
  /-- A tree is still to be given to some of the pages. -/
  | passing (many : n ≠ 1) (node : Node) (rest : List (Fin n))
  | finished

inductive Evaluating
  | reading (session : Session)
  | rendering (session : Session) (node : Node)
  | holding (session : Session) (text : String)
  | finished

inductive Assembling
  | collecting (text : String)
  | holding (page : Nat × Page)
  | finished

def State {n : Nat} : Task n → Type
  | .lexer => Lexing
  | .parser => Parsing
  | .fan => Fanning n
  | .evaluator _ => Evaluating
  | .assembler _ => Assembling

def lex {n : Nat} : Lexing → Move (@Item n) Lexing
  | ⟨lexer, token :: pending, lines⟩ => .give .tokens token ⟨lexer, pending, lines⟩
  | ⟨_, [], []⟩ => .stop
  | ⟨lexer, [], line :: lines⟩ =>
    match lexer.readLine line with
    | (.ok tokens, next) => .turn ⟨next, tokens, lines⟩
    | (.error e, _) => .fail (.lex e)

def Parsing.afterToken (parser : Parser) (token : Token) : Parsing :=
  match parser.push token with
  | (.ok none, next) => .reading next
  | (.ok (some root), next) => .holding root next
  | (.error e, _) => .refused e

def Parsing.atEnd (parser : Parser) : Parsing :=
  match parser.finish.1 with
  | .ok () => .finished
  | .error e => .refused e

def parse {n : Nat} : Parsing → Move (@Item n) Parsing
  | .reading parser => .take .tokens (Parsing.afterToken parser) (.atEnd parser)
  | .holding root parser =>
    if h : n = 1 then .give (.branch ⟨0, by omega⟩) root (.reading parser)
    else .give .nodes root (.reading parser)
  | .refused e => .fail (.parse e)
  | .finished => .stop

def fanOut {n : Nat} : Fanning n → Move (@Item n) (Fanning n)
  | .reading many => .take .nodes (fun node => .passing many node (List.finRange n)) .finished
  | .passing many _ [] => .turn (.reading many)
  | .passing many node (k :: rest) => .give (.branch k) node (.passing many node rest)
  | .finished => .stop

/-- The evaluation of a tree is one move: what other pages do to the exports meanwhile concerns this
file alone, and a page that is told to give up within a tree gives up before it. The tree's text is
handed on with the next move. -/
def evaluate {n : Nat} (world : World) (document : Document) (k : Fin n) (store : ExportStore) :
    Evaluating → Move (@Item n) Evaluating × ExportStore
  | .reading session =>
    (.take (.branch k) (fun node => .rendering session node) .finished, store)
  | .rendering session node =>
    match (Evaluation.render world document node).run { session with exports := store } with
    | (.ok text, after) => (.turn (.holding after text), after.exports)
    | (.error .interrupted, after) => (.stop, after.exports)
    | (.error e, after) => (.fail (.eval e), after.exports)
  | .holding session text => (.give (.texts k) text (.reading session), store)
  | .finished => (.stop, store)

def assemble {n : Nat} (k : Fin n) (page : String → Page) : Assembling → Move (@Item n) Assembling
  | .collecting text =>
    .take (.texts k) (fun more : String => .collecting (text ++ more)) (.holding (k, page text))
  | .holding item => .give .pages item .finished
  | .finished => .stop

/-- The tasks that hold a sender of a channel. -/
def writes {n : Nat} : Task n → Channel n → Prop
  | .lexer, .tokens => True
  | .parser, .nodes => n ≠ 1
  | .parser, .branch _ => n = 1
  | .fan, .branch _ => n ≠ 1
  | .evaluator k, .texts j => k = j
  | .assembler _, .pages => True
  | _, _ => False

def reader {n : Nat} : Channel n → Option (Task n)
  | .tokens => some .parser
  | .nodes => some .fan
  | .branch k => some (.evaluator k)
  | .texts k => some (.assembler k)
  | .pages => none

variable {n : Nat}

theorem lex_within (s : Lexing) :
    (@lex n s).Within (writes .lexer) fun w => reader w = some .lexer := by
  obtain ⟨lexer, pending, lines⟩ := s
  cases pending with
  | cons token pending => trivial
  | nil =>
    cases lines with
    | nil => trivial
    | cons line lines =>
      simp only [lex]
      split <;> trivial

theorem parse_within (s : Parsing) :
    (@parse n s).Within (writes .parser) fun w => reader w = some .parser := by
  cases s with
  | reading parser => rfl
  | refused e => trivial
  | finished => trivial
  | holding root parser =>
    by_cases hone : n = 1
    · simp only [parse, dif_pos hone]
      exact hone
    · simp only [parse, dif_neg hone]
      exact hone

theorem fanOut_within (s : Fanning n) :
    (fanOut s).Within (writes .fan) fun w => reader w = some .fan := by
  cases s with
  | reading many => rfl
  | finished => trivial
  | passing many node rest =>
    cases rest with
    | nil => trivial
    | cons k rest => exact many

theorem evaluate_within (world : World) (document : Document) (k : Fin n) (store : ExportStore)
    (s : Evaluating) :
    (evaluate world document k store s).1.Within (writes (.evaluator k))
      fun w => reader w = some (.evaluator k) := by
  cases s with
  | reading session => rfl
  | finished => trivial
  | holding session text => rfl
  | rendering session node =>
    unfold evaluate
    dsimp only
    split <;> trivial

theorem assemble_within (k : Fin n) (page : String → Page) (s : Assembling) :
    (assemble k page s).Within (writes (.assembler k)) fun w => reader w = some (.assembler k) := by
  cases s with
  | collecting text => rfl
  | holding item => trivial
  | finished => trivial

end Stages

open Stages

structure Job where
  setting : Setting
  stores : Stores
  input : Path
  source : String
  /-- What is done to the text of a page at last. -/
  post : Path → String → String
  capacity : Nat
  capacity_pos : 0 < capacity

namespace Job

variable (job : Job)

def pages : Nat := Rendering.pageCount job.setting job.source

def world : World := Rendering.world job.setting job.stores

def document (k : Nat) : Document :=
  ⟨job.input, Int64.ofInt (1 + k), clampInt64 job.pages, job.setting.map⟩

def linked : ExportStore :=
  job.stores.exports.insert job.input ["_href"] (.str (job.setting.map.href job.input 1))

def session (k : Nat) : Session :=
  { (Draft.blank (job.document k)).session with exports := job.linked }

def page (k : Nat) (text : String) : Page :=
  ⟨job.setting.map.outputPath job.input (job.document k).page, job.post job.input text⟩

/-- The tasks and channels of a file. The last channel has room for all pages. -/
def network : Network (Task job.pages) (Channel job.pages) ExportStore where
  Item := Item
  State := Stages.State
  present
    | .fan => job.pages ≠ 1
    | _ => true
  start
    | .lexer => (⟨{}, [], Text.lines job.source.toList⟩ : Lexing)
    | .parser => Parsing.reading .idle
    | .fan => if h : job.pages = 1 then Fanning.finished else Fanning.reading h
    | .evaluator k => Evaluating.reading (job.session k)
    | .assembler _ => Assembling.collecting ""
  move
    | .lexer, store, state => (lex state, store)
    | .parser, store, state => (Stages.parse state, store)
    | .fan, store, state => (fanOut state, store)
    | .evaluator k, store, state => evaluate job.world (job.document k) k store state
    | .assembler k, store, state => (assemble k (job.page k) state, store)
  writes := writes
  reader := reader
  capacity
    | .pages => max job.pages 1
    | _ => job.capacity

def depth {n : Nat} : Task n → Nat
  | .lexer => 0
  | .parser => 1
  | .fan => 2
  | .evaluator _ => 3
  | .assembler _ => 4

def inlet {n : Nat} : Task n → Option (Channel n)
  | .lexer => none
  | .parser => some .tokens
  | .fan => some .nodes
  | .evaluator k => some (.branch k)
  | .assembler k => some (.texts k)

theorem inlet_of_reader {n : Nat} {t : Task n} {w : Channel n} (h : reader w = some t) :
    inlet t = some w := by
  cases w <;> cases h <;> rfl

theorem depth_lt {n : Nat} {t r : Task n} {w : Channel n} (hwrites : writes t w)
    (hreader : reader w = some r) : depth t < depth r := by
  have hinlet := inlet_of_reader hreader
  cases r <;> cases hinlet <;> cases t <;> first | exact hwrites.elim | simp [depth]

theorem depth_le {n : Nat} (t : Task n) : depth t ≤ 4 := by
  cases t <;> simp [depth]

theorem layered : job.network.Layered depth 4 := by
  refine ⟨fun w => ?_, fun {t v w} hv hw => ?_, fun hwrites hreader => depth_lt hwrites hreader,
    depth_le⟩
  · cases w with
    | pages => exact Nat.lt_of_lt_of_le Nat.one_pos (Nat.le_max_right _ _)
    | tokens | nodes | branch k | texts k => exact job.capacity_pos
  · exact Option.some.inj ((inlet_of_reader hv).symm.trans (inlet_of_reader hw))

/-- The work that is left to a task. A tree costs more before it has been passed on to all pages. -/
def weight {n : Nat} : (t : Task n) → Stages.State t → Nat
  | .lexer, ⟨lexer, pending, lines⟩ =>
    (pending.length + (lexer.readableLines lines).length) * (5 * n + 7) + lines.length
  | .parser, .reading _ => 1
  | .parser, .holding _ _ => 5 * n + 6
  | .fan, .reading _ => 1
  | .fan, .passing _ _ rest => 5 * rest.length + 2
  | .evaluator _, .reading _ => 1
  | .evaluator _, .rendering _ _ => 4
  | .evaluator _, .holding _ _ => 3
  | .assembler _, .collecting _ => 2
  | .assembler _, .holding _ => 1
  | _, _ => 0

def cost {n : Nat} : Channel n → Nat
  | .tokens => 5 * n + 6
  | .nodes => 5 * n + 4
  | .branch _ => 4
  | .texts _ => 1
  | .pages => 0

variable {n : Nat}

theorem lex_lessens (s : Lexing) :
    Network.Lessens (@weight n .lexer) (@cost n) (@weight n .lexer s) (@lex n s) := by
  obtain ⟨lexer, pending, lines⟩ := s
  cases pending with
  | cons token pending =>
    simp only [lex, Network.Lessens, weight, cost, List.length_cons]
    have hone := Nat.add_mul (pending.length + (lexer.readableLines lines).length) 1 (5 * n + 7)
    rw [Nat.add_right_comm pending.length 1]
    omega
  | nil =>
    cases lines with
    | nil => trivial
    | cons line lines =>
      rcases hline : lexer.readLine line with ⟨result, next⟩
      cases result with
      | error e =>
        simp only [lex, hline]
        trivial
      | ok tokens =>
        have hreadable : lexer.readableLines (line :: lines) =
            tokens ++ next.readableLines lines := by
          rw [Lexer.readableLines, hline]
        simp only [lex, hline, Network.Lessens, weight, hreadable, List.length_append,
          List.length_cons, List.length_nil, Nat.zero_add]
        omega

theorem parse_lessens (s : Parsing) :
    Network.Lessens (@weight n .parser) (@cost n) (@weight n .parser s) (@Stages.parse n s) := by
  cases s with
  | refused e => trivial
  | finished => trivial
  | holding root parser =>
    by_cases hone : n = 1
    · simp only [Stages.parse, dif_pos hone, Network.Lessens, weight, cost]
      omega
    · simp only [Stages.parse, dif_neg hone, Network.Lessens, weight, cost]
      omega
  | reading parser =>
    refine ⟨fun token => ?_, ?_⟩
    · change @weight n .parser (Parsing.afterToken parser token) < 1 + (5 * n + 6)
      unfold Parsing.afterToken
      split
      · simp only [weight]
        omega
      · simp only [weight]
        omega
      · simp only [weight]
        omega
    · change @weight n .parser (Parsing.atEnd parser) < 1
      unfold Parsing.atEnd
      split
      · exact Nat.one_pos
      · exact Nat.one_pos

theorem fanOut_lessens (s : Fanning n) :
    Network.Lessens (weight .fan) cost (weight .fan s) (fanOut s) := by
  cases s with
  | finished => trivial
  | reading many =>
    refine ⟨fun node => ?_, Nat.one_pos⟩
    simp only [weight, cost, List.length_finRange]
    omega
  | passing many node rest =>
    cases rest with
    | nil =>
      simp only [fanOut, Network.Lessens, weight]
      omega
    | cons k rest =>
      simp only [fanOut, Network.Lessens, weight, cost, List.length_cons]
      omega

theorem evaluate_lessens (world : World) (document : Document) (k : Fin n) (store : ExportStore)
    (s : Evaluating) :
    Network.Lessens (weight (.evaluator k)) cost (weight (.evaluator k) s)
      (evaluate world document k store s).1 := by
  cases s with
  | finished => trivial
  | reading session =>
    refine ⟨fun node => ?_, Nat.one_pos⟩
    simp only [weight, cost]
    omega
  | rendering session node =>
    unfold evaluate
    dsimp only
    split
    · simp only [Network.Lessens, weight]
      omega
    · trivial
    · trivial
  | holding session text =>
    simp only [evaluate, Network.Lessens, weight, cost]
    omega

theorem assemble_lessens (k : Fin n) (page : String → Page) (s : Assembling) :
    Network.Lessens (weight (.assembler k)) cost (weight (.assembler k) s)
      (assemble k page s) := by
  cases s with
  | finished => trivial
  | collecting text =>
    refine ⟨fun more => ?_, ?_⟩
    · simp only [weight, cost]
      omega
    · simp only [weight]
      omega
  | holding item =>
    simp only [assemble, Network.Lessens, weight, cost]
    omega

/-- Each task keeps to its ends of the channels. -/
theorem owns (t : Task job.pages) (store : ExportStore) (s : job.network.State t) :
    Network.Owns t (job.network.move t store s).1 := by
  cases t with
  | lexer => exact lex_within s
  | parser => exact parse_within s
  | fan => exact fanOut_within s
  | evaluator k => exact evaluate_within job.world (job.document k) k store s
  | assembler k => exact assemble_within k (job.page k) s

def effort : job.network.Effort where
  weight := weight
  cost := cost
  less
    | .lexer, _, s => lex_lessens s
    | .parser, _, s => parse_lessens s
    | .fan, _, s => fanOut_lessens s
    | .evaluator k, store, s => evaluate_lessens job.world (job.document k) k store s
    | .assembler k, _, s => assemble_lessens k (job.page k) s

end Job
end PageTemplate
