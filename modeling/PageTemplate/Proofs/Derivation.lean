import PageTemplate.Parser

namespace PageTemplate

def placeOf (ahead : Position) : List Token → Position
  | [] => ahead
  | token :: _ => token.pos

/-- Without tokens of its own a part stands where the next one does. -/
theorem placeOf_append (ahead : Position) (front back : List Token) :
    placeOf ahead (front ++ back) = placeOf (placeOf ahead back) front := by
  cases front <;> rfl

mutual

/-- A derivation of a symbol: a token of its class, or a rule for the phrase with derivations of the
parts that the rule asks for. -/
inductive Derivation : GrammarSymbol → Type
  | leaf {t : Terminal} (token : Token) (read : token.terminal? = some t) :
    Derivation (.terminal t)
  | node {n : Nonterminal} (rule : Rule) (builds : rule.lhs = n) (parts : Derivations rule.rhs) :
    Derivation (.phrase n)

inductive Derivations : List GrammarSymbol → Type
  | nil : Derivations []
  | cons {symbol : GrammarSymbol} {symbols : List GrammarSymbol}
    (first : Derivation symbol) (rest : Derivations symbols) : Derivations (symbol :: symbols)

end

mutual

def Derivation.yield {symbol : GrammarSymbol} : Derivation symbol → List Token
  | .leaf token _ => [token]
  | .node _ _ parts => parts.yield

def Derivations.yield {symbols : List GrammarSymbol} : Derivations symbols → List Token
  | .nil => []
  | .cons first rest => first.yield ++ rest.yield

end

mutual

/-- The entry that the rules of a derivation build, from the leaves up; `ahead` is the place of the
token behind the derivation, which matters to phrases without tokens only. -/
def Derivation.entry {symbol : GrammarSymbol} (ahead : Position) :
    Derivation symbol → Except ParseError Entry
  | .leaf token _ => .ok (.token token)
  | .node rule _ parts => do rule.build (← parts.entries ahead) ahead

def Derivations.entries {symbols : List GrammarSymbol} (ahead : Position) :
    Derivations symbols → Except ParseError (List Entry)
  | .nil => .ok []
  | .cons first rest => do
    let entry ← first.entry (placeOf ahead rest.yield)
    let entries ← rest.entries ahead
    return entry :: entries

end

mutual

/-- A derivation ends in tokens that the grammar reads. -/
theorem Derivation.readable_of_mem {symbol : GrammarSymbol} (d : Derivation symbol) {token : Token}
    (h : token ∈ d.yield) : token.terminal?.isSome := by
  cases d with
  | leaf leaf read =>
    obtain rfl := List.mem_singleton.1 h
    exact Option.isSome_iff_exists.2 ⟨_, read⟩
  | node rule _ parts => exact parts.readable_of_mem h

/-- The grammar reads every token that is derived. -/
theorem Derivations.readable_of_mem {symbols : List GrammarSymbol} (ds : Derivations symbols)
    {token : Token} (h : token ∈ ds.yield) : token.terminal?.isSome := by
  cases ds with
  | nil => simp [Derivations.yield] at h
  | cons first rest =>
    rcases List.mem_append.1 h with hfirst | hrest
    · exact first.readable_of_mem hfirst
    · exact rest.readable_of_mem hrest

end

end PageTemplate
