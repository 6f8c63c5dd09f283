import PageTemplate.Template
import PageTemplate.Template.Reading

namespace PageTemplate

namespace Parser

variable {parser next : Parser} {front back : List Token} {roots : List Node}

/-- Tokens that fit are pushed one part after the other. -/
theorem pushAll_append (h : parser.pushAll front = (roots, .ok next)) (back : List Token) :
    parser.pushAll (front ++ back) = (roots ++ (next.pushAll back).1, (next.pushAll back).2) := by
  induction front generalizing parser roots with
  | nil =>
    cases h
    rfl
  | cons token front ih =>
    rw [pushAll] at h
    rcases hpush : parser.push token with ⟨result, after⟩
    rw [hpush] at h
    cases result with
    | error e => cases h
    | ok root =>
      rcases hfront : after.pushAll front with ⟨trees, outcome⟩
      simp only [hfront] at h
      obtain ⟨rfl, rfl⟩ := Prod.mk.inj h
      rw [List.cons_append, pushAll, hpush]
      simp only [ih hfront, List.append_assoc]

/-- After a token that does not fit nothing is pushed any more. -/
theorem pushAll_append_error {e : ParseError} (h : parser.pushAll front = (roots, .error e))
    (back : List Token) : parser.pushAll (front ++ back) = (roots, .error e) := by
  induction front generalizing parser roots with
  | nil => cases h
  | cons token front ih =>
    rw [pushAll] at h
    rcases hpush : parser.push token with ⟨result, after⟩
    rw [hpush] at h
    cases result with
    | error e' =>
      rw [List.cons_append, pushAll, hpush]
      exact h
    | ok root =>
      rcases hfront : after.pushAll front with ⟨trees, outcome⟩
      simp only [hfront] at h
      obtain ⟨rfl, rfl⟩ := Prod.mk.inj h
      rw [List.cons_append, pushAll, hpush]
      simp only [ih hfront]

/-- The trees of a part are the first trees of the whole. -/
theorem pushAll_fst_le (parser : Parser) (front back : List Token) :
    (parser.pushAll front).1 <+: (parser.pushAll (front ++ back)).1 := by
  rcases hfront : parser.pushAll front with ⟨roots, result⟩
  cases result with
  | error e => simp only [pushAll_append_error hfront back, List.prefix_rfl]
  | ok next =>
    rw [pushAll_append hfront back]
    exact List.prefix_append roots _

/-- Reading all tokens is pushing them one by one and looking at the end. -/
theorem readAll_eq (parser : Parser) (tokens : List Token) :
    parser.readAll tokens = match parser.pushAll tokens with
      | (_, .error e) => .error e
      | (roots, .ok next) => next.finish.1.map fun _ => roots := by
  induction tokens generalizing parser with
  | nil => rfl
  | cons token tokens ih =>
    rw [readAll, pushAll]
    rcases hpush : parser.push token with ⟨result, after⟩
    cases result with
    | error e => rfl
    | ok root =>
      have hrest := ih after
      rcases hpushed : after.pushAll tokens with ⟨roots, outcome⟩
      rw [hpushed] at hrest
      cases outcome with
      | error e => cases root <;> simp only [hrest, hpushed, Except.map]
      | ok last =>
        cases hfinish : last.finish.1 with
        | error e =>
          simp only [hfinish, Except.map] at hrest
          cases root <;> simp only [hrest, hpushed, hfinish, Except.map]
        | ok _ =>
          simp only [hfinish, Except.map] at hrest
          cases root <;> simp only [hrest, hpushed, hfinish, Except.map] <;> rfl

end Parser

namespace Lexer

/-- Where all lines can be read, their tokens are those before the first fault. -/
theorem readableLines_eq {lexer : Lexer} {lines : List (List Char)} {tokens : List Token}
    (h : lexer.readLines lines = .ok tokens) : lexer.readableLines lines = tokens := by
  induction lines generalizing lexer tokens with
  | nil =>
    cases h
    rfl
  | cons line lines ih =>
    rw [readLines] at h
    rw [readableLines]
    rcases hline : lexer.readLine line with ⟨result, next⟩
    rw [hline] at h
    cases result with
    | error e => cases h
    | ok first =>
      cases hrest : next.readLines lines with
      | error e =>
        simp only [hrest] at h
        cases h
      | ok rest =>
        simp only [hrest] at h
        cases h
        simp only [ih hrest]

end Lexer

namespace Template

/-- Lines are read up to the first token that does not fit or the first fault in a line, whichever
comes first; else to the end. -/
theorem Reading.ofLines_eq (lexer : Lexer) (parser : Parser) (lines : List (List Char)) :
    ofLines lexer parser lines = match parser.pushAll (lexer.readableLines lines) with
      | (trees, .error e) => ⟨trees, some (.parse e)⟩
      | (trees, .ok next) => match lexer.readLines lines with
        | .error e => ⟨trees, some (.lex e)⟩
        | .ok _ => match next.finish.1 with
          | .ok () => ⟨trees, none⟩
          | .error e => ⟨trees, some (.parse e)⟩ := by
  induction lines generalizing lexer parser with
  | nil =>
    rw [ofLines]
    rfl
  | cons line lines ih =>
    rw [ofLines, Lexer.readableLines, Lexer.readLines]
    rcases hline : lexer.readLine line with ⟨result, after⟩
    cases result with
    | error e => rfl
    | ok tokens =>
      rcases hpush : parser.pushAll tokens with ⟨trees, outcome⟩
      cases outcome with
      | error e =>
        simp only [hpush, Parser.pushAll_append_error hpush]
      | ok next =>
        simp only [hpush, Parser.pushAll_append hpush, ih]
        rcases hlater : next.pushAll (after.readableLines lines) with ⟨later, last⟩
        cases last with
        | error e => rfl
        | ok last =>
          cases hrest : after.readLines lines with
          | error e => rfl
          | ok rest =>
            simp only [Except.map]
            cases last.finish.1 <;> rfl

/-- A source that can be read is read to its end. -/
theorem ofSource_of_read {source : String} {nodes : List Node} (h : read source = .ok nodes) :
    Reading.ofSource source = ⟨nodes, none⟩ := by
  rw [Reading.ofSource, Reading.ofLines_eq]
  rw [read, tokenize] at h
  cases hlines : Lexer.readLines {} (Text.lines source.toList) with
  | error e =>
    rw [hlines] at h
    cases h
  | ok tokens =>
    rw [hlines] at h
    rw [Lexer.readableLines_eq hlines]
    simp only [parse, Parser.readAll_eq] at h
    rcases hpush : Parser.idle.pushAll tokens with ⟨trees, outcome⟩
    rw [hpush] at h
    cases outcome with
    | error e => cases h
    | ok next =>
      simp only at h ⊢
      cases hfinish : next.finish.1 with
      | error e =>
        rw [hfinish] at h
        cases h
      | ok _ =>
        rw [hfinish] at h
        cases h
        rfl

/-- A source without a fault is read as a whole. -/
theorem read_of_ofSource {source : String} {nodes : List Node}
    (h : Reading.ofSource source = ⟨nodes, none⟩) : read source = .ok nodes := by
  rw [Reading.ofSource, Reading.ofLines_eq] at h
  rw [read, tokenize]
  rcases hpush : Parser.idle.pushAll (Lexer.readableLines {} (Text.lines source.toList)) with
    ⟨trees, outcome⟩
  rw [hpush] at h
  cases outcome with
  | error e => cases h
  | ok next =>
    cases hlines : Lexer.readLines {} (Text.lines source.toList) with
    | error e =>
      rw [hlines] at h
      cases h
    | ok tokens =>
      rw [hlines] at h
      rw [Lexer.readableLines_eq hlines] at hpush
      simp only at h
      cases hfinish : next.finish.1 with
      | error e =>
        rw [hfinish] at h
        cases h
      | ok _ =>
        rw [hfinish] at h
        cases h
        simp only [parse, Parser.readAll_eq, hpush, hfinish]
        rfl

end Template
end PageTemplate
