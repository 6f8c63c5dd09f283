import PageTemplate.Proofs.Lexing

namespace PageTemplate
namespace Lexeme

variable {c : Char} {cs rest front back : List Char} {kind : TokenKind} {more : Nat}

theorem opening_ends (h : opening? c rest = some (.token kind more)) :
    kind.EndsBefore (rest.drop more) := by
  unfold opening? at h
  split at h <;> cases h
  · trivial
  · next tail hno =>
    intro hcolon
    obtain ⟨others, rfl⟩ := List.head?_eq_some_iff.1 hcolon
    exact hno others rfl

theorem operator_ends (h : operator? c rest = some (.token kind more)) :
    kind.EndsBefore (rest.drop more) := by
  unfold operator? at h
  split at h <;> cases h <;> intro hshort hequals
  all_goals first | exact absurd hshort (by decide) | skip
  all_goals
    next hno =>
    obtain ⟨others, rfl⟩ := List.head?_eq_some_iff.1 hequals
    exact hno others rfl

theorem drop_length_takeWhile (p : Char → Bool) (cs : List Char) :
    cs.drop (cs.takeWhile p).length = cs.dropWhile p := calc
  _ = (cs.takeWhile p ++ cs.dropWhile p).drop (cs.takeWhile p).length := by
    rw [List.takeWhile_append_dropWhile]
  _ = cs.dropWhile p := List.drop_left

/-- What is left by dropping characters of a kind does not begin with one of them. -/
theorem head?_dropWhile (p : Char → Bool) (cs : List Char) :
    ∀ d ∈ (cs.dropWhile p).head?, p d = false := by
  intro d hd
  have hhead := List.head?_dropWhile_not p cs
  rw [Option.mem_def.1 hd] at hhead
  exact hhead

/-- Behind the words that are read nothing goes on with the last one. -/
theorem dottedWords_ends (cs : List Char) :
    wordGoesOn (cs.drop (['.'].intercalate (dottedWords cs)).length) = false := by
  fun_induction dottedWords cs with
  | case1 cs c rest hrest hstart _ ih =>
    rw [List.intercalate_cons_of_ne_nil (dottedWords_ne_nil _), List.length_append,
      List.length_append, ← List.drop_drop, ← List.drop_drop,
      drop_length_takeWhile, hrest]
    exact ih
  | case2 cs c rest hrest hstart =>
    rw [List.intercalate_singleton, drop_length_takeWhile, hrest]
    exact Bool.eq_false_iff.2 hstart
  | case3 cs hrest =>
    rw [List.intercalate_singleton, drop_length_takeWhile]
    have hhead := head?_dropWhile isWordChar cs
    unfold wordGoesOn
    split
    · next heq => exact absurd heq (hrest _ _)
    · next d _ _ heq => exact hhead d (congrArg List.head? heq)
    · rfl

theorem ofWords_endsBefore (words : List String) (h : wordGoesOn rest = false) :
    (ofWords words).EndsBefore rest := by
  unfold ofWords
  split
  · split
    · exact h
    · split
      · exact h
      · split <;> exact h
  · exact h

theorem name_ends (hstart : isWordStart c = true) (h : name (c :: rest) = .token kind more) :
    kind.EndsBefore (rest.drop more) := by
  have hends := dottedWords_ends (c :: rest)
  obtain ⟨first, letters, hjoined, -⟩ := exists_wordStart (dottedWords_ne_nil (c :: rest))
    (isWord_of_mem_dottedWords hstart rest)
  rw [hjoined, List.length_cons, List.drop_succ_cons] at hends
  rw [name, hjoined] at h
  cases h
  exact ofWords_endsBefore _ hends

theorem stringLiteral_ends (h : stringLiteral rest = .ok (.token kind more)) :
    kind.EndsBefore (rest.drop more) := by
  unfold stringLiteral at h
  dsimp only at h
  split at h <;> cases h
  trivial

theorem number_ends (h : number c rest = .ok (.token kind more)) :
    kind.EndsBefore (rest.drop more) := by
  unfold number at h
  dsimp only at h
  split at h
  · cases h
    rw [List.length_cons, Nat.add_sub_cancel, drop_length_takeWhile]
    exact head?_dropWhile Char.isDigit rest
  · cases h

theorem inside_ends (h : inside c rest = .ok (.token kind more)) :
    kind.EndsBefore (rest.drop more) := by
  unfold inside at h
  split at h
  · cases h
  · split at h
    · next found hfound =>
      cases h
      simp only [Option.orElse_eq_orElse, Option.orElse_eq_or, Option.or_eq_some_iff] at hfound
      rcases hfound with hclosing | ⟨-, hopening | ⟨-, hoperator⟩⟩
      · unfold closing? at hclosing
        split at hclosing <;> cases hclosing
        trivial
      · exact opening_ends hopening
      · exact operator_ends hoperator
    · split at h
      · cases h
        trivial
      · split at h
        · next hstart => exact name_ends hstart (Except.ok.inj h)
        · split at h
          · exact stringLiteral_ends h
          · split at h
            · exact number_ends h
            · cases h

/-- A text goes up to the next opening delimiter and is not cut within it. -/
theorem text_ends (h : opening? c rest = none) :
    rest.drop (textLength rest) = [] ∨ ['{', '{'] <+: rest.drop (textLength rest) ∧
      (c :: rest.take (textLength rest)).getLast? ≠ some '{' := by
  fun_induction textLength rest generalizing c with
  | case1 => exact .inl rfl
  | case2 tail =>
    refine .inr ⟨⟨tail, rfl⟩, fun hlast => ?_⟩
    obtain rfl : c = '{' := Option.some.inj hlast
    unfold opening? at h
    split at h
    · cases h
    · cases h
    · next hno => exact hno ('{' :: tail) rfl rfl
  | case3 d rest hno ih =>
    have hnone : opening? d rest = none := opening?_eq_none fun hopens => by
      obtain ⟨hd, tail, htail⟩ := List.cons_prefix_cons.1 hopens
      exact hno tail hd.symm htail.symm
    rw [List.drop_succ_cons, List.take_succ_cons, List.getLast?_cons_cons]
    exact ih hnone

theorem outside_ends (h : outside c rest = .token kind more) :
    kind.EndsBefore (rest.drop more) := by
  unfold outside at h
  split at h
  · next lexeme hopening =>
    subst h
    exact opening_ends hopening
  · next hnone =>
    cases h
    rw [TokenKind.endsBefore_text_iff, String.toList_ofList]
    exact text_ends hnone

/-- Nothing goes on with a token behind the place where it has been cut. -/
theorem read_ends {inBlock : Bool} (h : read inBlock c rest = .ok (.token kind more)) :
    kind.EndsBefore (rest.drop more) := by
  cases inBlock with
  | true => exact inside_ends h
  | false => exact outside_ends (Except.ok.inj h)

/-! ### How far one has to look -/

theorem wordGoesOn_cons (hdot : c ≠ '.') (rest : List Char) :
    wordGoesOn (c :: rest) = isWordChar c := by
  unfold wordGoesOn
  split
  · next heq => exact absurd (List.cons.inj heq).1 hdot
  · next heq => rw [(List.cons.inj heq).1]
  · next heq => cases heq

theorem wordGoesOn_of_append (h : wordGoesOn (front ++ back) = false) :
    wordGoesOn front = false := by
  match front with
  | [] => rfl
  | [c] =>
    by_cases hdot : c = '.'
    · rw [hdot]
      rfl
    · rwa [List.singleton_append, wordGoesOn_cons hdot, ← wordGoesOn_cons hdot []] at h
  | c :: d :: front =>
    by_cases hdot : c = '.'
    · subst hdot
      exact h
    · rwa [List.cons_append, wordGoesOn_cons hdot, ← wordGoesOn_cons hdot (d :: front)] at h

theorem wordGoesOn_append (h : wordGoesOn front = false) (hne : front ≠ [])
    (hdots : front = ['.'] → ∀ d ∈ back.head?, isWordStart d = false) :
    wordGoesOn (front ++ back) = false := by
  match front with
  | [] => exact absurd rfl hne
  | [c] =>
    by_cases hdot : c = '.'
    · subst hdot
      cases back with
      | nil => rfl
      | cons d back => exact hdots rfl d rfl
    · rwa [List.singleton_append, wordGoesOn_cons hdot, ← wordGoesOn_cons hdot []]
  | c :: d :: front =>
    by_cases hdot : c = '.'
    · subst hdot
      exact h
    · rwa [List.cons_append, wordGoesOn_cons hdot, ← wordGoesOn_cons hdot (d :: front)]

end Lexeme

namespace TokenKind

variable {kind : TokenKind} {cs front back : List Char}

/-- A token that ends in front of more characters ends in front of fewer. -/
theorem EndsBefore.of_append (h : kind.EndsBefore (front ++ back))
    (htext : ∀ content, kind ≠ .text content) : kind.EndsBefore front := by
  -- the end of a token is told by the next character, if there is one
  have hhead : front.head? = none ∨ front.head? = (front ++ back).head? := by
    cases front with
    | nil => exact .inl rfl
    | cons c front => exact .inr rfl
  have hne {d : Char} (hd : (front ++ back).head? ≠ some d) : front.head? ≠ some d := by
    rcases hhead with hnone | hsame
    · rw [hnone]
      nofun
    · rwa [hsame]
  cases kind with
  | operator cls spelling => exact fun hshort => hne (h hshort)
  | identifier | dottedName | bool | keyword => exact Lexeme.wordGoesOn_of_append h
  | number value =>
    intro c hc
    rcases hhead with hnone | hsame
    · rw [hnone] at hc
      cases hc
    · exact h c (hsame ▸ hc)
  | delimiter d =>
    cases d with
    | blockOpen => exact hne h
    | printOpen | blockClose => trivial
  | text content => exact absurd rfl (htext content)
  | string | symbol | endOfLine => trivial

/-- One character tells whether a token ends, unless it is a dot. -/
theorem EndsBefore.append (h : kind.EndsBefore front) (hne : front ≠ [])
    (hdots : front = ['.'] → ∀ d ∈ back.head?, Lexeme.isWordStart d = false) :
    kind.EndsBefore (front ++ back) := by
  have hhead : (front ++ back).head? = front.head? := List.head?_append_of_ne_nil front hne
  cases kind with
  | operator cls spelling => exact fun hshort => hhead ▸ h hshort
  | identifier | dottedName | bool | keyword => exact Lexeme.wordGoesOn_append h hne hdots
  | number value => exact fun c hc => h c (hhead ▸ hc)
  | delimiter d =>
    cases d with
    | blockOpen => exact fun hcolon => h (hhead ▸ hcolon)
    | printOpen | blockClose => trivial
  | text content =>
    rcases h with hnil | ⟨hopens, hlast⟩
    · exact absurd hnil hne
    · exact .inr ⟨hopens.trans (List.prefix_append front back), hlast⟩
  | string | symbol | endOfLine => trivial

/-- A token that ends somewhere has no longer spelling there. -/
theorem SpelledBy.eq_nil_of_append (h : kind.SpelledBy cs) (hlonger : kind.SpelledBy (cs ++ front))
    (hends : kind.EndsBefore (front ++ back)) : front = [] := by
  have hsame {spelling : List Char} (hcs : cs = spelling) (hmore : cs ++ front = spelling) :
      front = [] := List.append_right_eq_self.1 (hmore.trans hcs.symm)
  cases kind with
  | operator | string | symbol => exact hsame h.2 hlonger.2
  | identifier | text => exact hsame h.1 hlonger.1
  | dottedName => exact hsame h.2.2 hlonger.2.2
  | bool | keyword | delimiter | endOfLine => exact hsame h hlonger
  | number value =>
    cases front with
    | nil => rfl
    | cons c front =>
      have hdigit := hlonger.2.1 c (List.mem_append_right cs List.mem_cons_self)
      rw [hends c rfl] at hdigit
      cases hdigit

end TokenKind
end PageTemplate
