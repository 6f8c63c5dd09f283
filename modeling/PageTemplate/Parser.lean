import PageTemplate.Grammar.Weight
import PageTemplate.Node.Build
import PageTemplate.Token.Lexer

/-!
An incremental shift-reduce parser. Tokens are pushed one at a time, and the tree of each unit (a
piece of text, a block, an if statement or a loop) comes back with its last token: a unit is
complete when the automaton would accept if the input ended there. A token out of place makes the
parser give up the unit; a rebuilding step that cannot be carried out leaves it inside.
-/

namespace PageTemplate

/-- A state of the automaton together with what was read on the way into it. -/
structure Frame where
  state : State
  entry : Entry

structure Halt where
  error : ParseError
  /-- What is left of the unit, if it is not given up. -/
  left : Option (List Frame)

namespace Stack

def states (frames : List Frame) : List State := frames.map Frame.state

def top : List Frame → State
  | [] => 0
  | frame :: _ => frame.state

theorem headD_states (frames : List Frame) : (states frames).headD 0 = top frames := by
  cases frames <;> rfl

def reduce (rule : Rule) (frames : List Frame) (lookahead : Position) :
    Except Halt (List Frame) :=
  if frames.length < rule.rhs.length then
    .error ⟨.malformed (.shortStack rule frames.length) lookahead, some frames⟩
  else
    let rest := frames.drop rule.rhs.length
    match rule.build ((frames.take rule.rhs.length).reverse.map Frame.entry) lookahead with
    | .error e => .error ⟨e, some rest⟩
    | .ok entry =>
      match Table.goto? (top rest) rule.lhs with
      | some next => .ok (⟨next, entry⟩ :: rest)
      | none => .error ⟨.malformed (.noGoto rule.lhs (top rest)) lookahead, some rest⟩

theorem stackWeight_reduce {rule : Rule} {frames result : List Frame} {pos : Position}
    {t : Terminal} (haction : Table.action? (top frames) t = some (.reduce rule))
    (hreduce : reduce rule frames pos = .ok result) :
    Table.stackWeight (states result) < Table.stackWeight (states frames) := by
  simp only [reduce] at hreduce
  split at hreduce
  · cases hreduce
  · next hlen =>
    split at hreduce
    · cases hreduce
    · split at hreduce
      · next next hgoto =>
        cases hreduce
        have hlen' : rule.rhs.length ≤ (states frames).length := by
          rw [states, List.length_map]; omega
        have hdrop : states (frames.drop rule.rhs.length) =
            (states frames).drop rule.rhs.length := List.map_drop
        rw [← headD_states] at haction hgoto
        rw [hdrop] at hgoto
        have h := Table.stackWeight_reduce_lt haction hlen' hgoto
        rwa [← hdrop] at h
      · cases hreduce

/-- Rebuild as far as the table asks for it before a token, then move on over the token. -/
def feed (frames : List Frame) (terminal : Terminal) (token : Token) :
    Except Halt (List Frame) :=
  match haction : Table.action? (top frames) terminal with
  | some (.shift next) => .ok (⟨next, .token token⟩ :: frames)
  | some (.reduce rule) =>
    match hreduce : reduce rule frames token.pos with
    | .ok result =>
      have := stackWeight_reduce haction hreduce
      feed result terminal token
    | .error halt => .error halt
  | _ => .error ⟨.unexpectedToken token (top frames), none⟩
termination_by Table.stackWeight (states frames)

/-- Whether the automaton would accept if the input ended here, judged by the states alone. -/
def accepts (states : List State) : Bool :=
  match haction : Table.action? (states.headD 0) .endOfInput with
  | some .accept => true
  | some (.reduce rule) =>
    if hlen : rule.rhs.length ≤ states.length then
      match hgoto : Table.goto? ((states.drop rule.rhs.length).headD 0) rule.lhs with
      | some next =>
        have := Table.stackWeight_reduce_lt haction hlen hgoto
        accepts (next :: states.drop rule.rhs.length)
      | none => false
    else false
  | _ => false
termination_by Table.stackWeight states

def complete (frames : List Frame) (opened : Position) : Except Halt Node :=
  match haction : Table.action? (top frames) .endOfInput with
  | some (.reduce rule) =>
    match hreduce : reduce rule frames opened with
    | .ok result =>
      have := stackWeight_reduce haction hreduce
      complete result opened
    | .error halt => .error halt
  | some .accept =>
    match frames with
    | [⟨_, .node root⟩] => .ok root
    | _ => .error ⟨.malformed .notSingle opened, none⟩
  | _ => .error ⟨.unexpectedEnd opened, none⟩
termination_by Table.stackWeight (states frames)

end Stack

structure Parser where
  frames : List Frame := []
  opened : Position := ⟨0, 0⟩

namespace Parser

def idle : Parser := {}

def isIdle (parser : Parser) : Bool := parser.frames.isEmpty

def halted (opened : Position) : Option (List Frame) → Parser
  | none => idle
  | some frames => ⟨frames, opened⟩

/-- Read one token; the result has the tree of the unit that the token completes, if any. -/
def push (parser : Parser) (token : Token) : Except ParseError (Option Node) × Parser :=
  match token.terminal? with
  | none => (.ok none, parser)
  | some terminal =>
    match token.kind, parser.isIdle with
    | .text content, true => (.ok (some (.leaf (.text content) token.pos)), parser)
    | _, isIdle =>
      let opened := if isIdle then token.pos else parser.opened
      match Stack.feed parser.frames terminal token with
      | .error halt => (.error halt.error, halted opened halt.left)
      | .ok frames =>
        if terminal = .blockClose && Stack.accepts (Stack.states frames) then
          match Stack.complete frames opened with
          | .ok root => (.ok (some root), idle)
          | .error halt => (.error halt.error, halted opened halt.left)
        else (.ok none, ⟨frames, opened⟩)

def finish (parser : Parser) : Except ParseError Unit × Parser :=
  if parser.isIdle then (.ok (), parser) else (.error (.unexpectedEnd parser.opened), idle)

def readAll (parser : Parser) : List Token → Except ParseError (List Node)
  | [] => (parser.finish.1).map fun _ => []
  | token :: tokens =>
    match parser.push token with
    | (.error e, _) => .error e
    | (.ok none, next) => next.readAll tokens
    | (.ok (some root), next) => (next.readAll tokens).map (root :: ·)

end Parser

def parse (tokens : List Token) : Except ParseError (List Node) := Parser.idle.readAll tokens

end PageTemplate
