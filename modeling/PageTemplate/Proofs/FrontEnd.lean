import PageTemplate.Proofs.Readings
import PageTemplate.Proofs.Stages

namespace PageTemplate.Stages

variable {n : Nat} {source : String}

theorem writes_tokens (t : Task n) (h : writes t .tokens) : t = .lexer := by
  cases t with
  | lexer => rfl
  | parser | fan | evaluator k | assembler k => exact h.elim

theorem writes_nodes (t : Task n) (h : writes t .nodes) : t = .parser := by
  cases t with
  | parser => rfl
  | lexer | fan | evaluator k | assembler k => exact h.elim

theorem eq_of_parse_stop {s : Parsing} (h : @parse n s = .stop) : s = .finished := by
  cases s with
  | finished => rfl
  | reading parser => cases h
  | refused e => cases h
  | holding root parser =>
    unfold parse at h
    dsimp only at h
    split at h <;> cases h

theorem eq_of_parse_fail {s : Parsing} {cause : Failure} (h : @parse n s = .fail cause) :
    ∃ e, s = .refused e ∧ cause = .parse e := by
  cases s with
  | refused e =>
    cases h
    exact ⟨e, rfl, rfl⟩
  | finished => cases h
  | reading parser => cases h
  | holding root parser =>
    unfold parse at h
    dsimp only at h
    split at h <;> cases h

def tokens (source : String) : List Token := Lexer.readableLines {} (Text.lines source.toList)

/-- The tokens handed on, those in hand and those of the lines that are left make up the source. -/
structure Lexed (source : String) (said : List Token) (s : Lexing) : Prop where
  tokens : said ++ s.pending ++ s.lexer.readableLines s.lines = tokens source
  whole : (s.lexer.readLines s.lines).map (said ++ s.pending ++ ·) = tokenize source

/-- At the beginning all lines are left. -/
theorem Lexed.first (source : String) :
    Lexed source [] ⟨{}, [], Text.lines source.toList⟩ := by
  refine ⟨rfl, ?_⟩
  rw [tokenize]
  cases Lexer.readLines {} (Text.lines source.toList) <;> rfl

/-- What the lexer does next: it hands on a token, reads a line, fails at the first line that cannot
be read, or ends behind the last one. -/
theorem Lexed.next {said : List Token} {s : Lexing} (h : Lexed source said s) :
    (∃ (token : Token) (next : Lexing), @lex n s = .give .tokens token next ∧
        Lexed source (said ++ [token]) next) ∨
      (∃ next, @lex n s = .turn next ∧ Lexed source said next) ∨
      (∃ e, @lex n s = .fail (.lex e) ∧ tokenize source = .error e) ∨
      (@lex n s = .stop ∧ tokenize source = .ok said) := by
  obtain ⟨lexer, pending, lines⟩ := s
  obtain ⟨htokens, hwhole⟩ := h
  -- what has been read of a line is sent before the next line is read
  cases pending with
  | cons token pending =>
    have hsame : said ++ [token] ++ pending = said ++ token :: pending :=
      (List.append_cons said token pending).symm
    refine .inl ⟨token, ⟨lexer, pending, lines⟩, rfl, ?_, ?_⟩
    · rw [← htokens, hsame]
    · rw [← hwhole, hsame]
  | nil =>
    simp only [List.append_nil] at htokens hwhole
    cases lines with
    | nil =>
      refine .inr (.inr (.inr ⟨rfl, ?_⟩))
      rw [← hwhole]
      simp only [Lexer.readLines, Except.map, List.append_nil]
    | cons line lines =>
      rcases hline : lexer.readLine line with ⟨result, next⟩
      cases result with
      | error e =>
        simp only [Lexer.readLines, hline] at hwhole
        refine .inr (.inr (.inl ⟨e, ?_, hwhole.symm⟩))
        simp only [lex, hline]
      | ok tokens =>
        simp only [Lexer.readableLines, Lexer.readLines, hline] at htokens hwhole
        refine .inr (.inl ⟨⟨next, tokens, lines⟩, ?_, ?_, ?_⟩)
        · simp only [lex, hline]
        · rw [← htokens, List.append_assoc]
        · rw [← hwhole]
          cases next.readLines lines with
          | error e => rfl
          | ok rest => simp only [Except.map, List.append_assoc]

/-- The tokens handed on begin the tokens of the source. -/
theorem Lexed.le {said : List Token} {s : Lexing} (h : Lexed source said s) :
    said <+: Stages.tokens source := by
  refine ⟨s.pending ++ s.lexer.readableLines s.lines, ?_⟩
  rw [← h.tokens, List.append_assoc]

/-- The lexer ends by itself only behind the last line. -/
theorem Lexed.stop {said : List Token} {s : Lexing} (h : Lexed source said s)
    (hstop : @lex n s = .stop) : tokenize source = .ok said := by
  rcases @Lexed.next n source said s h with
    ⟨token, next, hmove, -⟩ | ⟨next, hmove, -⟩ | ⟨e, hmove, -⟩ | ⟨-, hwhole⟩
  · cases hmove.symm.trans hstop
  · cases hmove.symm.trans hstop
  · cases hmove.symm.trans hstop
  · exact hwhole

/-- If the lexer fails, the source has this fault. -/
theorem Lexed.fail {said : List Token} {s : Lexing} {cause : Failure} (h : Lexed source said s)
    (hfail : @lex n s = .fail cause) : ∃ e, cause = .lex e ∧ tokenize source = .error e := by
  rcases @Lexed.next n source said s h with
    ⟨token, next, hmove, -⟩ | ⟨next, hmove, -⟩ | ⟨e, hmove, hwhole⟩ | ⟨hmove, -⟩
  · cases hmove.symm.trans hfail
  · cases hmove.symm.trans hfail
  · cases hmove.symm.trans hfail
    exact ⟨e, rfl, hwhole⟩
  · cases hmove.symm.trans hfail

/-- What the parser has handed on are the trees that the tokens complete, except the one in hand. -/
inductive Parsed (heard : List Token) (spent : Bool) (said : List Node) : Parsing → Prop
  | reading {parser : Parser} (pushed : Parser.idle.pushAll heard = (said, .ok parser)) :
    Parsed heard spent said (.reading parser)
  | holding {root : Node} {parser : Parser}
    (pushed : Parser.idle.pushAll heard = (said ++ [root], .ok parser)) :
    Parsed heard spent said (.holding root parser)
  | misfit {e : ParseError} (pushed : Parser.idle.pushAll heard = (said, .error e)) :
    Parsed heard spent said (.refused e)
  | cut {parser : Parser} {e : ParseError} (ended : spent = true)
    (pushed : Parser.idle.pushAll heard = (said, .ok parser)) (open_ : parser.finish.1 = .error e) :
    Parsed heard spent said (.refused e)
  | finished {parser : Parser} (ended : spent = true)
    (pushed : Parser.idle.pushAll heard = (said, .ok parser)) (whole : parser.finish.1 = .ok ()) :
    Parsed heard spent said .finished

theorem Parsed.take {heard : List Token} {spent : Bool} {said : List Node} {parser : Parser}
    (h : Parsed heard spent said (.reading parser)) (token : Token) :
    Parsed (heard ++ [token]) spent said (Parsing.afterToken parser token) := by
  cases h with
  | reading pushed =>
    have hmore := Parser.pushAll_append pushed [token]
    rw [Parser.pushAll] at hmore
    unfold Parsing.afterToken
    rcases hpush : parser.push token with ⟨result, next⟩
    rw [hpush] at hmore
    cases result with
    | error e =>
      apply Parsed.misfit
      rw [hmore, List.append_nil]
    | ok root =>
      cases root with
      | none =>
        apply Parsed.reading
        rw [hmore]
        exact congrArg (·, _) (List.append_nil said)
      | some root => exact .holding hmore

theorem Parsed.atEnd {heard : List Token} {spent : Bool} {said : List Node} {parser : Parser}
    (h : Parsed heard spent said (.reading parser)) :
    Parsed heard true said (Parsing.atEnd parser) := by
  cases h with
  | reading pushed =>
    unfold Parsing.atEnd
    cases hfinish : parser.finish.1 with
    | error e => exact .cut rfl pushed hfinish
    | ok _ => exact .finished rfl pushed hfinish

section Trees

variable {heard : List Token} {spent : Bool} {said : List Node} {s : Parsing}

/-- The trees handed on begin the trees of the tokens taken. -/
theorem Parsed.le (h : Parsed heard spent said s) : said <+: (Parser.idle.pushAll heard).1 := by
  cases h with
  | reading pushed | misfit pushed | cut _ pushed _ | finished _ pushed _ =>
    rw [pushed]
  | holding pushed =>
    rw [pushed]
    exact List.prefix_append _ _

/-- A source has the trees that its tokens complete before the first fault. -/
theorem trees_eq (source : String) :
    (Template.Reading.ofSource source).trees = (Parser.idle.pushAll (tokens source)).1 := by
  rw [Template.Reading.ofSource, Template.Reading.ofLines_eq, tokens]
  rcases Parser.idle.pushAll (Lexer.readableLines {} (Text.lines source.toList)) with
    ⟨trees, result⟩
  cases result with
  | error e => rfl
  | ok parser =>
    cases Lexer.readLines {} (Text.lines source.toList) with
    | error e => rfl
    | ok tokens =>
      dsimp only
      split <;> rfl

/-- What the parser has handed on are the first trees of the source. -/
theorem Parsed.le_trees (h : Parsed heard spent said s) (hheard : heard <+: tokens source) :
    said <+: (Template.Reading.ofSource source).trees := by
  obtain ⟨later, hlater⟩ := hheard
  rw [trees_eq, ← hlater]
  exact h.le.trans (Parser.pushAll_fst_le _ _ later)

/-- The first token that does not fit is the fault of the source, wherever its tokens end. -/
theorem fault_of_push_error {roots : List Node} {e : ParseError} (hle : heard <+: tokens source)
    (h : Parser.idle.pushAll heard = (roots, .error e)) :
    (Template.Reading.ofSource source).fault = some (.parse e) := by
  obtain ⟨later, hlater⟩ := hle
  have hall := Parser.pushAll_append_error h later
  rw [hlater, tokens] at hall
  rw [Template.Reading.ofSource, Template.Reading.ofLines_eq, hall]

/-- Once all tokens have been pushed, the end of the input decides. -/
theorem reading_of_pushAll {roots : List Node} {parser : Parser}
    (htokens : tokenize source = .ok heard)
    (h : Parser.idle.pushAll heard = (roots, .ok parser)) :
    Template.Reading.ofSource source = match parser.finish.1 with
      | .ok () => ⟨roots, none⟩
      | .error e => ⟨roots, some (.parse e)⟩ := by
  rw [tokenize] at htokens
  rw [← Lexer.readableLines_eq htokens] at h
  cases hfinish : parser.finish.1 <;>
    simp only [Template.Reading.ofSource, Template.Reading.ofLines_eq, h, htokens, hfinish]

/-- What the parser refuses is a fault of the source, as long as it does not take the end of what it
has heard for the end of the source. -/
theorem Parsed.fault {e : ParseError} (h : Parsed heard spent said (.refused e))
    (hheard : heard <+: tokens source) (hend : spent = true → tokenize source = .ok heard) :
    (Template.Reading.ofSource source).fault = some (.parse e) := by
  cases h with
  | misfit pushed => exact fault_of_push_error hheard pushed
  | cut ended pushed unfinished => rw [reading_of_pushAll (hend ended) pushed, unfinished]

/-- A parser that comes to its end has handed on all trees of the source. -/
theorem Parsed.read (h : Parsed heard spent said .finished)
    (hend : spent = true → tokenize source = .ok heard) : Template.read source = .ok said := by
  cases h with
  | finished ended pushed whole =>
    apply Template.read_of_ofSource
    rw [reading_of_pushAll (hend ended) pushed, whole]

end Trees

end PageTemplate.Stages
