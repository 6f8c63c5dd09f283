import PageTemplate.Context
import PageTemplate.Proofs.Spelling
import PageTemplate.Value.Operators

namespace PageTemplate

/-- The place that stands for all places in an error, where it does not matter which one it is. -/
def Position.nowhere : Position := ⟨0, 0⟩

inductive UnaryOperator
  | not | negate

namespace UnaryOperator

def spelling : UnaryOperator → String
  | .not => "!"
  | .negate => "-"

def token (op : UnaryOperator) : TokenKind :=
  match op with
  | .not => .operator .bang op.spelling
  | .negate => .operator .minus op.spelling

def apply : UnaryOperator → Value → Position → Except EvalError Value
  | .not => Value.not
  | .negate => Value.negate

end UnaryOperator

inductive BinaryOperator
  | or | and | equal | notEqual | less | greater | lessEqual | greaterEqual | plus | minus | times
  | divide | remainder

namespace BinaryOperator

def spelling : BinaryOperator → String
  | .or => "||"
  | .and => "&&"
  | .equal => "=="
  | .notEqual => "!="
  | .less => "<"
  | .greater => ">"
  | .lessEqual => "<="
  | .greaterEqual => ">="
  | .plus => "+"
  | .minus => "-"
  | .times => "*"
  | .divide => "/"
  | .remainder => "%"

def cls : BinaryOperator → OperatorClass
  | .or | .and => .logic
  | .equal | .notEqual | .less | .greater | .lessEqual | .greaterEqual => .relation
  | .plus => .plus
  | .minus => .minus
  | .times | .divide | .remainder => .mult

def token (op : BinaryOperator) : TokenKind := .operator op.cls op.spelling

/-- How strongly an operator binds: logic least, then relations, sums and products. What is no
operation between two operands binds with a strength of four. -/
def strength (op : BinaryOperator) : Nat :=
  match op.cls with
  | .logic => 0
  | .relation => 1
  | .plus | .minus => 2
  | _ => 3

def apply : BinaryOperator → Value → Value → Position → Except EvalError Value
  | .or => Value.or
  | .and => Value.and
  | .plus => Value.add
  | .minus => Value.sub
  | .times => Value.mul
  | .divide => Value.div
  | .remainder => Value.rem
  | op => Value.relate op.spelling

end BinaryOperator

inductive Formula
  | number (value : Int64)
  | bool (value : Bool)
  | string (content : String)
  | name (parts : List String)
  | unary (op : UnaryOperator) (operand : Formula)
  | binary (op : BinaryOperator) (left right : Formula)

namespace Formula

/-- The value of a formula in a scope, or the first error, from the leaves up and from left to
right. -/
def value (scope : Context) : Formula → Except EvalError Value
  | .number n => .ok (.int n)
  | .bool b => .ok (.bool b)
  | .string s => .ok (.str s)
  | .name parts =>
    match scope.at? parts with
    | some value => .ok value
    | none => .error (.undefinedVariable (".".intercalate parts) .nowhere)
  | .unary op operand => do
    let value ← operand.value scope
    op.apply value .nowhere
  | .binary op left right => do
    let lhs ← left.value scope
    let rhs ← right.value scope
    op.apply lhs rhs .nowhere

/-- All parts of a formula, operands before their operation and left ones before right ones. -/
def postorder : Formula → List Formula
  | .unary op operand => operand.postorder ++ [.unary op operand]
  | .binary op left right => left.postorder ++ right.postorder ++ [.binary op left right]
  | leaf => [leaf]

/-- The tokens of a formula where an operand of some strength is asked for. -/
inductive Written : Nat → Formula → List TokenKind → Prop
  | number (level : Nat) (value : Int64) : Written level (.number value) [.number value]
  | bool (level : Nat) (value : Bool) : Written level (.bool value) [.bool value]
  | string (level : Nat) (content : String) : Written level (.string content) [.string content]
  | identifier (level : Nat) (name : String) : Written level (.name [name]) [.identifier name]
  | dottedName (level : Nat) (parts : List String) : Written level (.name parts) [.dottedName parts]
  | unary (level : Nat) (op : UnaryOperator) {operand : Formula} {tokens : List TokenKind} :
    Written 4 operand tokens → Written level (.unary op operand) (op.token :: tokens)
  | binary (level : Nat) (op : BinaryOperator) {left right : Formula}
    {front back : List TokenKind} : level ≤ op.strength → Written op.strength left front →
    Written (op.strength + 1) right back →
    Written level (.binary op left right) (front ++ op.token :: back)
  | parenthesized (level : Nat) {formula : Formula} {tokens : List TokenKind} :
    Written 0 formula tokens →
    Written level formula (.symbol '(' :: (tokens ++ [.symbol ')']))

def IsName : List String → Prop
  | [word] => Lexeme.IsWord word.toList ∧ Lexeme.isReserved word = false
  | words => 2 ≤ words.length ∧ ∀ word ∈ words, Lexeme.IsWord word.toList

def Writable : Formula → Prop
  | .number value => 0 ≤ value.toInt
  | .bool _ => True
  | .string content => '"' ∉ content.toList ∧ '\n' ∉ content.toList
  | .name parts => IsName parts
  | .unary _ operand => operand.Writable
  | .binary _ left right => left.Writable ∧ right.Writable

variable {scope : Context} {formula : Formula}

/-- Where a formula has a value, so have all its parts. -/
theorem postorder_ok {value : Value} (h : formula.value scope = .ok value) :
    ∀ part ∈ formula.postorder, ∃ v, part.value scope = .ok v := by
  induction formula generalizing value with
  | number | bool | string | name =>
    intro part hpart
    rw [List.mem_singleton.1 hpart]
    exact ⟨value, h⟩
  | unary op operand ih =>
    intro part hpart
    rcases List.mem_append.1 hpart with hinner | hself
    · cases hoperand : operand.value scope with
      | ok v => exact ih hoperand part hinner
      | error e =>
        rw [Formula.value, hoperand] at h
        cases h
    · rw [List.mem_singleton.1 hself]
      exact ⟨value, h⟩
  | binary op left right ihleft ihright =>
    intro part hpart
    cases hleft : left.value scope with
    | error e =>
      rw [Formula.value, hleft] at h
      cases h
    | ok lhs =>
      cases hright : right.value scope with
      | error e =>
        rw [Formula.value, hleft, hright] at h
        cases h
      | ok rhs =>
        simp only [postorder, List.mem_append, List.mem_singleton] at hpart
        rcases hpart with (hfront | hback) | rfl
        · exact ihleft hleft part hfront
        · exact ihright hright part hback
        · exact ⟨value, h⟩

/-- The error of a formula is that of the first of its parts that has no value. -/
theorem first_failure {e : EvalError} (h : formula.value scope = .error e) :
    ∃ before failing after, formula.postorder = before ++ failing :: after ∧
      (∀ part ∈ before, ∃ v, part.value scope = .ok v) ∧ failing.value scope = .error e := by
  induction formula with
  | number | bool | string | name => exact ⟨[], _, [], rfl, nofun, h⟩
  | unary op operand ih =>
    cases hoperand : operand.value scope with
    -- the operand has a value, so what fails is the operator, behind all its parts
    | ok v => exact ⟨operand.postorder, _, [], rfl, postorder_ok hoperand, h⟩
    | error e' =>
      rw [value, hoperand] at h
      cases h
      obtain ⟨before, failing, after, hsplit, hbefore, hfailing⟩ := ih hoperand
      refine ⟨before, failing, after ++ [.unary op operand], ?_, hbefore, hfailing⟩
      rw [postorder, hsplit, List.append_assoc, List.cons_append]
  | binary op left right ihleft ihright =>
    cases hleft : left.value scope with
    | error e' =>
      rw [value, hleft] at h
      cases h
      obtain ⟨before, failing, after, hsplit, hbefore, hfailing⟩ := ihleft hleft
      refine ⟨before, failing, after ++ (right.postorder ++ [.binary op left right]), ?_, hbefore,
        hfailing⟩
      rw [postorder, hsplit]
      simp
    | ok lhs =>
      cases hright : right.value scope with
      | error e' =>
        rw [value, hleft, hright] at h
        cases h
        obtain ⟨before, failing, after, hsplit, hbefore, hfailing⟩ := ihright hright
        refine ⟨left.postorder ++ before, failing, after ++ [.binary op left right], ?_,
          List.forall_mem_append.2 ⟨postorder_ok hleft, hbefore⟩, hfailing⟩
        rw [postorder, hsplit]
        simp
      | ok rhs =>
        refine ⟨left.postorder ++ right.postorder, _, [], rfl,
          List.forall_mem_append.2 ⟨postorder_ok hleft, postorder_ok hright⟩, h⟩

end Formula

theorem Lexeme.IsWord.not_mem_newline {cs : List Char} (h : IsWord cs) : '\n' ∉ cs := by
  obtain ⟨first, rest, rfl, hfirst, hrest⟩ := h
  intro hmem
  have hchar : isWordChar '\n' = true := by
    rcases List.mem_cons.1 hmem with rfl | hmem
    · exact isWordChar_of_isWordStart hfirst
    · exact hrest _ hmem
  exact absurd hchar (by decide)

theorem Lexeme.not_mem_newline_of_words {words : List (List Char)}
    (h : ∀ word ∈ words, IsWord word) : '\n' ∉ ['.'].intercalate words := by
  induction words with
  | nil => exact List.not_mem_nil
  | cons word words ih =>
    obtain ⟨hword, hwords⟩ := List.forall_mem_cons.1 h
    cases words with
    | nil => simpa using hword.not_mem_newline
    | cons next words =>
      rw [List.intercalate_cons_cons]
      simp [hword.not_mem_newline, ih hwords]

namespace TokenKind

def OnOneLine (kind : TokenKind) : Prop := ∃ cs, kind.SpelledBy cs ∧ '\n' ∉ cs

/-- A number is written with digits alone. -/
theorem onOneLine_number {value : Int64} (h : 0 ≤ value.toInt) :
    (TokenKind.number value).OnOneLine := by
  have hdigits : ∀ c ∈ Nat.toDigits 10 value.toInt.toNat, c.isDigit = true := fun c hc =>
    Nat.isDigit_of_mem_toDigits (by decide) (by decide) hc
  refine ⟨Nat.toDigits 10 value.toInt.toNat, ⟨Nat.toDigits_ne_nil, hdigits, ?_⟩, fun hmem => ?_⟩
  · rw [Nat.ofDigitChars_ten_toDigits, Int.toNat_of_nonneg h]
  · exact absurd (hdigits _ hmem) (by decide)

/-- A string on one line has no line end in it, as there are no escapes. -/
theorem onOneLine_string {content : String} (hquote : '"' ∉ content.toList)
    (hline : '\n' ∉ content.toList) : (TokenKind.string content).OnOneLine := by
  refine ⟨'"' :: content.toList ++ ['"'], ⟨hquote, rfl⟩, ?_⟩
  simp [hline]

theorem onOneLine_dottedName {parts : List String} (hlength : 2 ≤ parts.length)
    (hwords : ∀ part ∈ parts, Lexeme.IsWord part.toList) :
    (TokenKind.dottedName parts).OnOneLine := by
  refine ⟨_, ⟨hlength, hwords, rfl⟩, Lexeme.not_mem_newline_of_words fun word hword => ?_⟩
  obtain ⟨part, hpart, rfl⟩ := List.mem_map.1 hword
  exact hwords part hpart

end TokenKind

theorem UnaryOperator.token_onOneLine (op : UnaryOperator) : op.token.OnOneLine := by
  cases op <;> exact ⟨_, ⟨by decide, rfl⟩, by decide⟩

theorem BinaryOperator.token_onOneLine (op : BinaryOperator) : op.token.OnOneLine := by
  cases op <;> exact ⟨_, ⟨by decide, rfl⟩, by decide⟩

namespace Formula

/-- A formula that has a notation can be written where any strength is asked for. -/
theorem Writable.exists_written {formula : Formula} (h : formula.Writable) (level : Nat) :
    ∃ kinds, Written level formula kinds ∧ kinds ≠ [] ∧ ∀ kind ∈ kinds, kind.OnOneLine := by
  induction formula generalizing level with
  | number value =>
    exact ⟨_, .number level value, List.cons_ne_nil _ _,
      List.forall_mem_singleton.2 (TokenKind.onOneLine_number h)⟩
  | bool value =>
    refine ⟨_, .bool level value, List.cons_ne_nil _ _, List.forall_mem_singleton.2 ?_⟩
    exact ⟨_, rfl, by cases value <;> decide⟩
  | string content =>
    exact ⟨_, .string level content, List.cons_ne_nil _ _,
      List.forall_mem_singleton.2 (TokenKind.onOneLine_string h.1 h.2)⟩
  | name parts =>
    rw [Writable] at h
    unfold IsName at h
    split at h
    · next word =>
      refine ⟨_, .identifier level word, List.cons_ne_nil _ _, List.forall_mem_singleton.2 ?_⟩
      exact ⟨_, ⟨rfl, h⟩, h.1.not_mem_newline⟩
    · exact ⟨_, .dottedName level parts, List.cons_ne_nil _ _,
        List.forall_mem_singleton.2 (TokenKind.onOneLine_dottedName h.1 h.2)⟩
  | unary op operand ih =>
    obtain ⟨kinds, hwritten, -, hkinds⟩ := ih h 4
    exact ⟨_, .unary level op hwritten, List.cons_ne_nil _ _,
      List.forall_mem_cons.2 ⟨op.token_onOneLine, hkinds⟩⟩
  | binary op left right ihleft ihright =>
    obtain ⟨front, hfront, -, hfrontKinds⟩ := ihleft h.1 op.strength
    obtain ⟨back, hback, -, hbackKinds⟩ := ihright h.2 (op.strength + 1)
    have hkinds : ∀ kind ∈ front ++ op.token :: back, kind.OnOneLine :=
      List.forall_mem_append.2
        ⟨hfrontKinds, List.forall_mem_cons.2 ⟨op.token_onOneLine, hbackKinds⟩⟩
    -- where the operator binds less than its place asks for, parentheses make up for it
    by_cases hlevel : level ≤ op.strength
    · exact ⟨_, .binary level op hlevel hfront hback, by simp, hkinds⟩
    · have hinner := Written.binary 0 op (Nat.zero_le _) hfront hback
      refine ⟨_, .parenthesized level hinner, List.cons_ne_nil _ _, ?_⟩
      refine List.forall_mem_cons.2 ⟨⟨_, ⟨rfl, rfl⟩, by decide⟩, ?_⟩
      exact List.forall_mem_append.2
        ⟨hkinds, List.forall_mem_singleton.2 ⟨_, ⟨rfl, rfl⟩, by decide⟩⟩

end Formula
end PageTemplate
