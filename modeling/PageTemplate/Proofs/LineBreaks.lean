import PageTemplate.Proofs.Formula
import PageTemplate.Proofs.Layout
import PageTemplate.Proofs.Stretches

namespace PageTemplate

namespace TokenKind

/-- A kind in front of others. Texts that are side by side become one text. -/
def prepend : TokenKind → List TokenKind → List TokenKind
  | .text first, .text second :: rest => .text (first ++ second) :: rest
  | kind, rest => kind :: rest

def joinTexts (kinds : List TokenKind) : List TokenKind := kinds.foldr prepend []

def Apart (first second : TokenKind) : Prop :=
  ∀ content, first = .text content → ∀ other, second ≠ .text other

theorem joinTexts_append (front back : List TokenKind) :
    joinTexts (front ++ back) = front.foldr prepend (joinTexts back) := List.foldr_append

theorem prepend_of_apart {first : TokenKind} {rest : List TokenKind}
    (h : ∀ second ∈ rest.head?, first.Apart second) : prepend first rest = first :: rest := by
  unfold prepend
  split
  · exact absurd rfl (h _ rfl _ rfl _)
  · rfl

/-- Where no two texts are side by side there is nothing to join. -/
theorem foldr_prepend {front back : List TokenKind} (h : (front ++ back).IsChain Apart) :
    front.foldr prepend back = front ++ back := by
  induction front with
  | nil => rfl
  | cons first front ih =>
    obtain ⟨hhead, hrest⟩ := List.isChain_cons.1 h
    rw [List.foldr_cons, ih hrest]
    exact prepend_of_apart hhead

/-- Only texts and string literals go over the end of a line. -/
theorem SpelledBy.of_newline {kind : TokenKind} {cs : List Char} (h : kind.SpelledBy cs)
    (hmem : '\n' ∈ cs) :
    (∃ content, kind = .string content ∧ '\n' ∈ content.toList) ∨
      ∃ content, kind = .text content := by
  cases kind with
  | string content =>
    obtain ⟨-, rfl⟩ := h
    exact .inl ⟨content, rfl, by simpa using hmem⟩
  | text content => exact .inr ⟨content, rfl⟩
  | operator cls spelling =>
    obtain ⟨hoperator, rfl⟩ := h
    exact absurd hmem ((by decide : ∀ operator ∈ Lexeme.operators, '\n' ∉ operator.2.toList) _
      hoperator)
  | identifier name => exact absurd hmem h.2.1.not_mem_newline
  | dottedName parts =>
    obtain ⟨-, hwords, rfl⟩ := h
    exact absurd hmem (Lexeme.not_mem_newline_of_words (by simpa using hwords))
  | number value => exact absurd (h.2.1 _ hmem) (by decide)
  | bool value =>
    rw [h] at hmem
    cases value <;> exact absurd hmem (by decide)
  | keyword word =>
    rw [h] at hmem
    cases word <;> exact absurd hmem (by decide)
  | symbol c =>
    obtain ⟨hsymbol, rfl⟩ := h
    rw [← List.mem_singleton.1 hmem] at hsymbol
    exact absurd hsymbol (by decide)
  | delimiter d =>
    rw [h] at hmem
    cases d <;> exact absurd hmem (by decide)
  | endOfLine =>
    rw [h] at hmem
    cases hmem

/-- No delimiter comes about where two texts meet, unless the first ends with a brace. -/
theorem not_opening_infix_append {front back : List Char} (hfront : ¬['{', '{'] <:+: front)
    (hback : ¬['{', '{'] <:+: back) (hedge : front.getLast? ≠ some '{') :
    ¬['{', '{'] <:+: front ++ back := by
  induction front with
  | nil => exact hback
  | cons c front ih =>
    rw [List.cons_append, List.infix_cons_iff, not_or]
    refine ⟨Lexeme.not_opening_append hfront (.inr hedge), ih ?_ ?_⟩
    · exact fun h => hfront (h.trans (List.suffix_cons c front).isInfix)
    · cases front with
      | nil => nofun
      | cons d front => exact hedge

/-- A text goes on behind the end of a line. -/
theorem spelledBy_text_append {first second : String} {cs ds : List Char}
    (hfirst : (TokenKind.text first).SpelledBy cs) (hsecond : (TokenKind.text second).SpelledBy ds)
    (hedge : cs.getLast? ≠ some '{') : (TokenKind.text (first ++ second)).SpelledBy (cs ++ ds) := by
  obtain ⟨rfl, hne, hcs⟩ := hfirst
  obtain ⟨rfl, -, hds⟩ := hsecond
  refine ⟨String.toList_append.symm, ?_, not_opening_infix_append hcs hds hedge⟩
  simp [hne]

end TokenKind

namespace Stretch

variable {inBlock : Bool} {stretches front back : List Stretch}

def kind? : Stretch → Option TokenKind
  | .blank _ => none
  | .token kind _ => some kind

def kinds (stretches : List Stretch) : List TokenKind := stretches.filterMap kind?

theorem kinds_append (front back : List Stretch) :
    kinds (front ++ back) = kinds front ++ kinds back := List.filterMap_append

theorem map_kind_tokens (line column : Nat) (stretches : List Stretch) :
    (tokens line column stretches).map Token.kind = kinds stretches := by
  fun_induction tokens line column stretches with
  | case1 => rfl
  | case2 column c rest ih => exact ih
  | case3 column kind chars rest ih => exact congrArg (kind :: ·) ih

theorem ne_endOfLine_of_mem_kinds (h : Placed inBlock stretches) :
    ∀ kind ∈ kinds stretches, kind ≠ .endOfLine := by
  intro kind hmem
  obtain ⟨stretch, hstretch, hkind⟩ := List.mem_filterMap.1 hmem
  obtain ⟨before, behind, hsplit⟩ := List.append_of_mem hstretch
  have hfits := h before stretch behind hsplit
  cases stretch with
  | blank c => cases hkind
  | token other cs =>
    cases hkind
    exact hfits.2.ne_endOfLine

/-- The kinds of the tokens of a line without its end. -/
theorem kinds_withoutLineEnds (h : Placed inBlock stretches) (line column : Nat) (pos : Position) :
    (withoutLineEnds (tokens line column stretches ++ [⟨.endOfLine, pos⟩])).map Token.kind =
      kinds stretches := by
  have hkeep : ∀ token ∈ tokens line column stretches, token.kind ≠ .endOfLine := by
    intro token hmem
    apply ne_endOfLine_of_mem_kinds h
    rw [← map_kind_tokens line column]
    exact List.mem_map_of_mem hmem
  have hfilter : withoutLineEnds (tokens line column stretches ++ [⟨.endOfLine, pos⟩]) =
      tokens line column stretches := by
    rw [withoutLineEnds, List.filter_append, List.filter_eq_self.2 (by simpa using hkeep)]
    simp
  rw [hfilter, map_kind_tokens]

/-- Outside the blocks there are texts and the delimiters that open blocks. -/
theorem Fits.outside_cases {stretch : Stretch} (h : stretch.Fits false) :
    (∃ content cs, stretch = .token (.text content) cs) ∨
      ∃ d cs, stretch = .token (.delimiter d) cs ∧ ['{', '{'] <+: cs := by
  cases stretch with
  | blank c => cases h.1
  | token kind cs =>
    rcases h.2 with ⟨content, rfl⟩ | ⟨d, hopens, rfl⟩
    · exact .inl ⟨content, cs, rfl⟩
    · have hcs : cs = d.spelling.toList := h.1
      refine .inr ⟨d, cs, rfl, ?_⟩
      rw [hcs]
      cases d with
      | blockOpen | printOpen => decide
      | blockClose => exact absurd rfl hopens

/-- Behind a text there is nothing, or the delimiter that opens the next block. -/
theorem delimiter_behind_text {content : String} {cs rest : List Char} {next : Stretch}
    (hplaced : Placed inBlock (.token (.text content) cs :: next :: back))
    (hended : Ended rest (.token (.text content) cs :: next :: back)) :
    ∃ d ds, next = .token (.delimiter d) ds := by
  have houtside := (placed_cons_iff.1 hplaced).1.outside_of_text
  subst houtside
  have hnext := (placed_cons_iff.1 (placed_cons_iff.1 hplaced).2).1
  obtain ⟨hends, hendedBack⟩ := ended_cons_iff.1 hended
  have hendsNext := (ended_cons_iff.1 hendedBack).1
  rcases hnext.outside_cases with ⟨other, ds, rfl⟩ | ⟨d, ds, rfl, -⟩
  · -- two texts side by side would have been one
    exfalso
    obtain ⟨rfl, hne, hother⟩ := hnext.1
    obtain ⟨c, ds, hds⟩ := List.exists_cons_of_ne_nil hne
    rw [List.flatMap_cons, chars, List.append_assoc, hds] at hends
    rw [EndsBefore, TokenKind.endsBefore_text_iff, hds] at hendsNext
    rw [hds] at hother
    rcases hends with hnil | ⟨hopens, -⟩
    · cases hnil
    · exact Lexeme.not_opening_append hother (hendsNext.imp_right And.right) hopens
  · exact ⟨d, ds, rfl⟩

/-- No two texts are side by side in a line. -/
theorem isChain_kinds {rest : List Char} (hplaced : Placed inBlock stretches)
    (hended : Ended rest stretches) : (kinds stretches).IsChain TokenKind.Apart := by
  induction stretches generalizing inBlock with
  | nil => exact .nil
  | cons first stretches ih =>
    have hlater := ih (placed_cons_iff.1 hplaced).2 (ended_cons_iff.1 hended).2
    cases first with
    | blank c => exact hlater
    | token kind cs =>
      refine List.isChain_cons.2 ⟨?_, hlater⟩
      rintro second hsecond content rfl other rfl
      cases stretches with
      | nil => cases hsecond
      | cons next stretches =>
        obtain ⟨d, ds, rfl⟩ := delimiter_behind_text hplaced hended
        cases hsecond

/-! ### From lines to the whole -/

/-- The stretches of a line and of what is behind it, put together as those of the whole. -/
structure Joins (inBlock : Bool) (front back whole : List Stretch) : Prop where
  chars : whole.flatMap Stretch.chars = front.flatMap Stretch.chars ++ back.flatMap Stretch.chars
  placed : Placed inBlock whole
  ended : Ended [] whole
  kinds : kinds whole = (kinds front).foldr TokenKind.prepend (kinds back)
  after : inBlockAfter inBlock whole = inBlockAfter (inBlockAfter inBlock front) back

/-- Where stretches are those of one line, there is nothing to put together. -/
theorem foldr_prepend_kinds {rest : List Char} (hplaced : Placed inBlock (front ++ back))
    (hended : Ended rest (front ++ back)) :
    (kinds front).foldr TokenKind.prepend (kinds back) = kinds (front ++ back) := by
  have hchain := isChain_kinds hplaced hended
  rw [kinds_append] at hchain ⊢
  exact TokenKind.foldr_prepend hchain

/-- Stretches of a line and those behind it are stretches of the whole, if neither side is text. -/
theorem joins_append (hfront : Placed inBlock front) (hends : Ended (back.flatMap chars) front)
    (hback : Placed (inBlockAfter inBlock front) back) (hendsBack : Ended [] back) :
    Joins inBlock front back (front ++ back) := by
  have hplaced : Placed inBlock (front ++ back) := placed_append_iff.2 ⟨hfront, hback⟩
  have hended : Ended [] (front ++ back) := by
    rw [ended_append_iff, List.append_nil]
    exact ⟨hends, hendsBack⟩
  exact ⟨List.flatMap_append, hplaced, hended, (foldr_prepend_kinds hplaced hended).symm,
    inBlockAfter_append inBlock front back⟩

/-- What follows counts only behind the last stretch, if one does not end in front of a dot. -/
theorem Ended.append {near far : List Char} (h : Ended near front) (hne : near ≠ [])
    (hdot : near.getLast? ≠ some '.') : Ended (near ++ far) front := by
  intro before stretch behind hsplit
  have hends := h before stretch behind hsplit
  cases stretch with
  | blank c => trivial
  | token kind cs =>
    rw [← List.append_assoc]
    refine TokenKind.EndsBefore.append hends (by simp [hne]) fun honly => ?_
    rw [← List.getLast?_append_of_ne_nil (behind.flatMap chars) hne, honly] at hdot
    exact absurd rfl hdot

section

variable {content other : String} {cs ds : List Char}

/-- Two texts that meet at the end of a line can stand as one. -/
theorem placed_texts (hfront : Placed inBlock (front ++ [.token (.text content) cs]))
    (hline : cs.getLast? = some '\n')
    (hback : Placed (inBlockAfter inBlock front) (.token (.text other) ds :: back)) :
    Placed inBlock (front ++ .token (.text (content ++ other)) (cs ++ ds) :: back) := by
  obtain ⟨hplacedFront, hplacedLast⟩ := placed_append_iff.1 hfront
  obtain ⟨hplacedOther, hplacedBack⟩ := placed_cons_iff.1 hback
  have hfirst := (placed_cons_iff.1 hplacedLast).1
  have hedge : cs.getLast? ≠ some '{' := by
    rw [hline]
    decide
  have hspelled := TokenKind.spelledBy_text_append hfirst.1 hplacedOther.1 hedge
  have hstands : (TokenKind.text (content ++ other)).Stands (inBlockAfter inBlock front) := by
    rw [hfirst.outside_of_text]
    exact .inl ⟨_, rfl⟩
  rw [placed_append_iff, placed_cons_iff]
  exact ⟨hplacedFront, ⟨hspelled, hstands⟩, hplacedBack⟩

theorem ended_texts (hends : Ended [] (front ++ [.token (.text content) cs]))
    (hline : cs.getLast? = some '\n') (hother : (TokenKind.text other).SpelledBy ds)
    (hendsBack : Ended [] (.token (.text other) ds :: back)) :
    Ended [] (front ++ .token (.text (content ++ other)) (cs ++ ds) :: back) := by
  obtain ⟨hendsOther, hendsLater⟩ := ended_cons_iff.1 hendsBack
  have hcs : cs ≠ [] := by
    rintro rfl
    cases hline
  have hdot : cs.getLast? ≠ some '.' := by
    rw [hline]
    decide
  rw [ended_append_iff, ended_cons_iff]
  refine ⟨?_, ?_, hendsLater⟩
  · have hendsFront := (ended_append_iff.1 hends).1
    simp only [List.flatMap_cons, List.flatMap_nil, List.append_nil, chars] at hendsFront ⊢
    rw [List.append_assoc]
    exact hendsFront.append hcs hdot
  · -- where the second text ends, so does the longer one
    obtain ⟨rfl, hne, -⟩ := hother
    refine hendsOther.imp_right fun hstops => ⟨hstops.1, ?_⟩
    rw [String.toList_append, List.getLast?_append_of_ne_nil _ hne]
    exact hstops.2

/-- A text at the end of a line goes on with the text that the next line begins with. -/
theorem joins_texts (hfront : Placed inBlock (front ++ [.token (.text content) cs]))
    (hends : Ended [] (front ++ [.token (.text content) cs])) (hline : cs.getLast? = some '\n')
    (hback : Placed (inBlockAfter inBlock front) (.token (.text other) ds :: back))
    (hendsBack : Ended [] (.token (.text other) ds :: back)) :
    Joins inBlock (front ++ [.token (.text content) cs]) (.token (.text other) ds :: back)
      (front ++ .token (.text (content ++ other)) (cs ++ ds) :: back) := by
  have hplaced := placed_texts hfront hline hback
  have hended := ended_texts hends hline (placed_cons_iff.1 hback).1.1 hendsBack
  refine ⟨by simp [chars], hplaced, hended, ?_, ?_⟩
  · calc kinds (front ++ .token (.text (content ++ other)) (cs ++ ds) :: back)
      _ = (kinds front).foldr TokenKind.prepend (.text (content ++ other) :: kinds back) :=
        (foldr_prepend_kinds hplaced hended).symm
      _ = (kinds front ++ [TokenKind.text content]).foldr TokenKind.prepend
          (.text other :: kinds back) := by
        rw [List.foldr_append]
        rfl
      _ = _ := by
        rw [kinds_append]
        rfl
  · rw [inBlockAfter_append, inBlockAfter_append, inBlockAfter_cons, inBlockAfter_token,
      inBlockAfter_cons _ (.token (.text other) ds), inBlockAfter_token]
    rfl

end

/-- A line that ends with a newline can be read together with what is behind it. -/
theorem exists_joins (hfront : Placed inBlock front) (hends : Ended [] front)
    (hline : (front.flatMap chars).getLast? = some '\n')
    (hback : Placed (inBlockAfter inBlock front) back) (hendsBack : Ended [] back) :
    ∃ whole, Joins inBlock front back whole := by
  rcases List.eq_nil_or_concat front with rfl | ⟨others, last, rfl⟩
  · cases hline
  rw [List.concat_eq_append] at hfront hends hline hback ⊢
  obtain ⟨-, hplacedLast⟩ := placed_append_iff.1 hfront
  obtain ⟨hfits, -⟩ := placed_cons_iff.1 hplacedLast
  have hne := hfits.chars_ne_nil
  have hlast : last.chars.getLast? = some '\n' := by
    rwa [List.flatMap_append, List.flatMap_singleton,
      List.getLast?_append_of_ne_nil _ hne] at hline
  -- only the last stretch of the line sees what is behind it
  have happend (h : last.EndsBefore (back.flatMap chars)) :
      ∃ whole, Joins inBlock (others ++ [last]) back whole := by
    refine ⟨_, joins_append hfront ?_ hback hendsBack⟩
    have hdot : last.chars.getLast? ≠ some '.' := by
      rw [hlast]
      decide
    have hothers := (ended_append_iff.1 hends).1
    simp only [List.flatMap_singleton, List.append_nil] at hothers
    rw [ended_append_iff, ended_cons_iff, List.flatMap_singleton, List.flatMap_nil, List.nil_append]
    exact ⟨hothers.append hne hdot, h, ended_nil _⟩
  cases last with
  | blank c => exact happend trivial
  | token kind cs =>
    rcases hfits.1.of_newline (List.mem_of_getLast? hlast) with ⟨content, rfl, -⟩ | ⟨content, rfl⟩
    · exact happend trivial
    · cases back with
      | nil => exact happend (.inl rfl)
      | cons first back =>
        rw [inBlockAfter_append, inBlockAfter_token] at hback
        have hfirst := (placed_cons_iff.1 hback).1
        rw [hfits.outside_of_text] at hfirst
        rcases hfirst.outside_cases with ⟨other, ds, rfl⟩ | ⟨d, ds, rfl, hopens⟩
        · exact ⟨_, joins_texts hfront hends hlast hback hendsBack⟩
        · refine happend (.inr ⟨hopens.trans (List.prefix_append _ _), ?_⟩)
          have hcs : cs.getLast? = some '\n' := hlast
          rw [← hfits.1.1, hcs]
          decide

/-! ### From the whole to its lines -/

/-- Stretches cut behind the first newline, in those of the line and those of what is left. -/
structure Cuts (inBlock : Bool) (stretches line rest : List Stretch) : Prop where
  charsLine : line.flatMap chars = (Text.takeLine (stretches.flatMap chars)).1
  charsRest : rest.flatMap chars = (Text.takeLine (stretches.flatMap chars)).2
  placedLine : Placed inBlock line
  endedLine : Ended [] line
  placedRest : Placed (inBlockAfter inBlock line) rest
  endedRest : Ended [] rest
  strings : ∀ content, .string content ∈ kinds rest → .string content ∈ kinds stretches

def ofText (cs : List Char) : Stretch := .token (.text (String.ofList cs)) cs

/-- Whatever is cut out of a text is a text. -/
theorem Fits.part {content : String} {cs part : List Char}
    (h : (Stretch.token (.text content) cs).Fits inBlock) (hpart : part <:+: cs)
    (hne : part ≠ []) : (ofText part).Fits inBlock := by
  obtain rfl := h.outside_of_text
  obtain ⟨-, -, hopening⟩ := h.1
  exact ⟨⟨String.toList_ofList.symm, hne, fun hopens => hopening (hopens.trans hpart)⟩,
    .inl ⟨_, rfl⟩⟩

/-- A text that goes over the end of a line is cut there in two, if anything of it is left. -/
theorem exists_cuts_text {content : String} {cs : List Char}
    (hplaced : Placed inBlock (.token (.text content) cs :: stretches))
    (hended : Ended [] (.token (.text content) cs :: stretches)) (hmem : '\n' ∈ cs) :
    ∃ line rest, Cuts inBlock (.token (.text content) cs :: stretches) line rest := by
  obtain ⟨hfits, hplacedRest⟩ := placed_cons_iff.1 hplaced
  obtain ⟨hends, hendedRest⟩ := ended_cons_iff.1 hended
  obtain ⟨before, behind, hcs, hbefore⟩ := List.eq_append_cons_of_mem hmem
  have hline : (ofText (before ++ ['\n'])).Fits inBlock :=
    hfits.part ⟨[], behind, by simp [hcs]⟩ (by simp)
  have hplacedLine : Placed inBlock [ofText (before ++ ['\n'])] :=
    placed_cons_iff.2 ⟨hline, placed_nil _⟩
  have hendedLine : Ended [] [ofText (before ++ ['\n'])] :=
    ended_cons_iff.2 ⟨.inl rfl, ended_nil []⟩
  have hchars : [ofText (before ++ ['\n'])].flatMap chars = before ++ ['\n'] :=
    List.flatMap_singleton _ _
  have htake : Text.takeLine ((Stretch.token (.text content) cs :: stretches).flatMap chars) =
      (before ++ ['\n'], behind ++ stretches.flatMap chars) := by
    rw [List.flatMap_cons, chars, hcs, List.append_assoc,
      Text.takeLine_append_of_not_mem hbefore, List.cons_append, Text.takeLine, if_pos rfl]
  by_cases hbehind : behind = []
  · -- the newline is the last character of the text
    subst hbehind
    exact ⟨[ofText (before ++ ['\n'])], stretches, by rw [htake, hchars], by rw [htake]; rfl,
      hplacedLine, hendedLine, hplacedRest, hendedRest, fun _ => List.mem_cons_of_mem _⟩
  · have hrest : (ofText behind).Fits inBlock :=
      hfits.part ⟨before ++ ['\n'], [], by simp [hcs]⟩ hbehind
    have hendsRest : (ofText behind).EndsBefore (stretches.flatMap chars ++ []) := by
      refine hends.imp_right fun hstops => ⟨hstops.1, ?_⟩
      have hlast := hstops.2
      rw [← hfits.1.1, hcs, List.getLast?_append_of_ne_nil _ (List.cons_ne_nil _ _),
        ← List.singleton_append, List.getLast?_append_of_ne_nil _ hbehind] at hlast
      rwa [String.toList_ofList]
    refine ⟨[ofText (before ++ ['\n'])], ofText behind :: stretches, by rw [htake, hchars],
      by rw [htake]; rfl, hplacedLine, hendedLine, placed_cons_iff.2 ⟨hrest, hplacedRest⟩,
      ended_cons_iff.2 ⟨hendsRest, hendedRest⟩, fun other hstring => ?_⟩
    rcases List.mem_cons.1 hstring with htext | hstring
    · cases htext
    · exact List.mem_cons_of_mem _ hstring

/-- An opening delimiter is never cut by the end of a line. -/
theorem takeLine_opening {cs : List Char} (h : ['{', '{'] <+: cs) :
    ['{', '{'] <+: (Text.takeLine cs).1 := by
  obtain ⟨rest, rfl⟩ := h
  exact ⟨(Text.takeLine rest).1, rfl⟩

/-- A token on one line ends there where it ended, if the rest of the line is all that is left. -/
theorem EndsBefore.takeLine {stretch : Stretch} {rest : List Char} (h : stretch.EndsBefore rest) :
    stretch.EndsBefore (Text.takeLine rest).1 := by
  cases stretch with
  | blank c => trivial
  | token kind cs =>
    by_cases htext : ∃ content, kind = .text content
    · obtain ⟨content, rfl⟩ := htext
      rcases h with rfl | ⟨hopens, hlast⟩
      · exact .inl rfl
      · exact .inr ⟨takeLine_opening hopens, hlast⟩
    · rw [← Text.takeLine_append rest] at h
      exact TokenKind.EndsBefore.of_append h (not_exists.1 htext)

/-- Stretches without a string literal that goes over the end of a line can be cut there. -/
theorem exists_cuts (hplaced : Placed inBlock stretches) (hended : Ended [] stretches)
    (hstrings : ∀ content, .string content ∈ kinds stretches → '\n' ∉ content.toList) :
    ∃ line rest, Cuts inBlock stretches line rest := by
  induction stretches generalizing inBlock with
  | nil => exact ⟨[], [], rfl, rfl, hplaced, hended, hplaced, hended, fun _ => id⟩
  | cons first stretches ih =>
    obtain ⟨hfits, hplacedRest⟩ := placed_cons_iff.1 hplaced
    obtain ⟨hends, hendedRest⟩ := ended_cons_iff.1 hended
    have hlater (content : String) (h : .string content ∈ kinds stretches) :
        .string content ∈ kinds (first :: stretches) :=
      ((List.sublist_cons_self first stretches).filterMap kind?).subset h
    by_cases hmem : '\n' ∈ first.chars
    · cases first with
      | blank c =>
        obtain rfl : '\n' = c := List.mem_singleton.1 hmem
        exact ⟨[.blank '\n'], stretches, rfl, rfl, placed_cons_iff.2 ⟨hfits, placed_nil _⟩,
          ended_cons_iff.2 ⟨trivial, ended_nil []⟩, hplacedRest, hendedRest, hlater⟩
      | token kind cs =>
        rcases hfits.1.of_newline hmem with ⟨content, rfl, hnewline⟩ | ⟨content, rfl⟩
        · exact absurd hnewline (hstrings content List.mem_cons_self)
        · exact exists_cuts_text hplaced hended hmem
    · -- the line ends further on, and this stretch is the first of it
      obtain ⟨line, rest, hcuts⟩ :=
        ih hplacedRest hendedRest fun content h => hstrings content (hlater content h)
      have htake : Text.takeLine ((first :: stretches).flatMap chars) =
          (first.chars ++ (Text.takeLine (stretches.flatMap chars)).1,
            (Text.takeLine (stretches.flatMap chars)).2) := by
        rw [List.flatMap_cons, Text.takeLine_append_of_not_mem hmem]
      have hendsLine : first.EndsBefore (line.flatMap chars ++ []) := by
        rw [List.append_nil] at hends ⊢
        rw [hcuts.charsLine]
        exact hends.takeLine
      refine ⟨first :: line, rest, ?_, ?_, placed_cons_iff.2 ⟨hfits, hcuts.placedLine⟩,
        ended_cons_iff.2 ⟨hendsLine, hcuts.endedLine⟩, ?_, hcuts.endedRest,
        fun content h => hlater content (hcuts.strings content h)⟩
      · rw [htake, List.flatMap_cons, hcuts.charsLine]
      · rw [htake, hcuts.charsRest]
      · rw [inBlockAfter_cons]
        exact hcuts.placedRest

end Stretch

theorem Text.takeLine_ends (cs : List Char) :
    (takeLine cs).1.getLast? = some '\n' ∨ (takeLine cs).2 = [] := by
  fun_induction takeLine cs with
  | case1 => exact .inr rfl
  | case2 rest => exact .inl rfl
  | case3 c rest hc ih =>
    refine ih.imp_left fun hlast => ?_
    have hne : (takeLine rest).1 ≠ [] := by
      intro hnil
      rw [hnil] at hlast
      cases hlast
    rw [← List.singleton_append, List.getLast?_append_of_ne_nil _ hne, hlast]

namespace Lexer

def afterLines (lexer : Lexer) (lines : List (List Char)) : Lexer :=
  lines.foldl (fun lexer line => (lexer.readLine line).2) lexer

/-- Lines that can be read are made of stretches, as if they were one line. -/
theorem exists_stretches_of_lines {lexer : Lexer} {cs : List Char} {tokens : List Token}
    (h : lexer.readLines (Text.lines cs) = .ok tokens) :
    ∃ whole : List Stretch, cs = whole.flatMap Stretch.chars ∧
      Stretch.Placed lexer.inBlock whole ∧ Stretch.Ended [] whole ∧
      Stretch.kinds whole = TokenKind.joinTexts ((withoutLineEnds tokens).map Token.kind) ∧
      (lexer.afterLines (Text.lines cs)).inBlock = Stretch.inBlockAfter lexer.inBlock whole := by
  fun_induction Text.lines cs generalizing lexer tokens with
  | case1 =>
    cases h
    exact ⟨[], rfl, Stretch.placed_nil _, Stretch.ended_nil _, rfl, rfl⟩
  | case2 c rest ih =>
    obtain ⟨first, next, later, hread, hlater, rfl⟩ := readLines_cons_eq_ok_iff.1 h
    obtain ⟨line, hline, hplaced, hended, rfl, hnext⟩ := readLine_eq_ok_iff.1 hread
    -- the lines behind the first one are one line already
    obtain ⟨back, hback, hplacedBack, hendedBack, hkinds, hafter⟩ := ih hlater
    rw [hnext] at hplacedBack hafter
    have hjoins : ∃ whole, Stretch.Joins lexer.inBlock line back whole := by
      rcases Text.takeLine_ends (c :: rest) with hnewline | hnil
      · rw [hline] at hnewline
        exact Stretch.exists_joins hplaced hended hnewline hplacedBack hendedBack
      · rw [hnil] at hback
        exact ⟨_, Stretch.joins_append hplaced (hback ▸ hended) hplacedBack hendedBack⟩
    obtain ⟨whole, hwhole⟩ := hjoins
    refine ⟨whole, ?_, hwhole.placed, hwhole.ended, ?_, ?_⟩
    · rw [hwhole.chars, ← hline, ← hback, Text.takeLine_append]
    · rw [hwhole.kinds, withoutLineEnds_append, List.map_append,
        Stretch.kinds_withoutLineEnds hplaced, TokenKind.joinTexts_append, hkinds]
    · rw [hwhole.after, ← hafter, afterLines, List.foldl_cons, hread, hnext]
      rfl

/-- A cut source can be read line by line unless a string goes on behind a line. -/
theorem exists_readLines {lexer : Lexer} {stretches : List Stretch}
    (hplaced : Stretch.Placed lexer.inBlock stretches) (hended : Stretch.Ended [] stretches)
    (hstrings : ∀ content, .string content ∈ Stretch.kinds stretches → '\n' ∉ content.toList) :
    ∃ tokens, lexer.readLines (Text.lines (stretches.flatMap Stretch.chars)) = .ok tokens := by
  generalize hcs : stretches.flatMap Stretch.chars = cs
  fun_induction Text.lines cs generalizing lexer stretches with
  | case1 => exact ⟨[], rfl⟩
  | case2 c rest ih =>
    obtain ⟨line, others, hcuts⟩ := Stretch.exists_cuts hplaced hended hstrings
    have hread := readLine_eq_ok_iff.2 ⟨line, rfl, hcuts.placedLine, hcuts.endedLine, rfl, rfl⟩
    let next : Lexer := ⟨lexer.line + 1, Stretch.inBlockAfter lexer.inBlock line⟩
    have hplacedRest : Stretch.Placed next.inBlock others := hcuts.placedRest
    obtain ⟨later, hlater⟩ := ih hplacedRest hcuts.endedRest
      (fun content h => hstrings content (hcuts.strings content h)) (by rw [hcuts.charsRest, hcs])
    rw [hcuts.charsLine, hcs] at hread
    exact ⟨_, readLines_cons_eq_ok_iff.2 ⟨_, _, later, hread, hlater, rfl⟩⟩

end Lexer

/-- Where a document is broken into lines does not change its tokens. If it can be read line by
line, it can be read as one line, with the same tokens once texts that are cut at the ends of lines
are put together, and with a block open afterwards in one way if and only if in the other. If it can
be read as one line, it can be read line by line, unless a string literal goes over the end of one.
-/
theorem lines_agree_with_whole (source : String) :
    (∀ tokens, tokenize source = .ok tokens →
      ∃ whole next, Lexer.readLine {} source.toList = (.ok whole, next) ∧
        (withoutLineEnds whole).map Token.kind =
          TokenKind.joinTexts ((withoutLineEnds tokens).map Token.kind) ∧
        next.inBlock = (Lexer.afterLines {} (Text.lines source.toList)).inBlock) ∧
    ∀ whole next, Lexer.readLine {} source.toList = (.ok whole, next) →
      (∀ content, .string content ∈ whole.map Token.kind → '\n' ∉ content.toList) →
      ∃ tokens, tokenize source = .ok tokens := by
  constructor
  · intro tokens h
    obtain ⟨stretches, hchars, hplaced, hended, hkinds, hafter⟩ :=
      Lexer.exists_stretches_of_lines h
    have hread := Lexer.readLine_eq_ok_iff.2 ⟨stretches, hchars, hplaced, hended, rfl, rfl⟩
    exact ⟨_, _, hread, (Stretch.kinds_withoutLineEnds hplaced _ _ _).trans hkinds, hafter.symm⟩
  · intro whole next h hstrings
    obtain ⟨stretches, hchars, hplaced, hended, rfl, -⟩ := Lexer.readLine_eq_ok_iff.1 h
    rw [tokenize, hchars]
    refine Lexer.exists_readLines hplaced hended fun content hmem => hstrings content ?_
    rw [List.map_append, Stretch.map_kind_tokens]
    exact List.mem_append_left _ hmem

/-- Text that is cut in three, a block that is broken, and a string literal that is not. -/
theorem lines_agree_with_whole_in_block :
    let source := "a\nb\x7b\x7b x\n=\"\x7d\x7d\"\n\x7d\x7d\nc"
    ∃ tokens whole next, tokenize source = .ok tokens ∧
      tokens.map Token.kind = [.text "a\n", .endOfLine, .text "b", .delimiter .blockOpen,
        .identifier "x", .endOfLine, .operator .assign "=", .string "\x7d\x7d", .endOfLine,
        .delimiter .blockClose, .text "\n", .endOfLine, .text "c", .endOfLine] ∧
      Lexer.readLine {} source.toList = (.ok whole, next) ∧
      (withoutLineEnds whole).map Token.kind = [.text "a\nb", .delimiter .blockOpen,
        .identifier "x", .operator .assign "=", .string "\x7d\x7d", .delimiter .blockClose,
        .text "\nc"] ∧
      next.inBlock = false := by
  intro source
  have hlines : tokenize source = .ok [⟨.text "a\n", ⟨1, 1⟩⟩, ⟨.endOfLine, ⟨1, 3⟩⟩,
      ⟨.text "b", ⟨2, 1⟩⟩, ⟨.delimiter .blockOpen, ⟨2, 2⟩⟩, ⟨.identifier "x", ⟨2, 5⟩⟩,
      ⟨.endOfLine, ⟨2, 7⟩⟩, ⟨.operator .assign "=", ⟨3, 1⟩⟩, ⟨.string "\x7d\x7d", ⟨3, 2⟩⟩,
      ⟨.endOfLine, ⟨3, 7⟩⟩, ⟨.delimiter .blockClose, ⟨4, 1⟩⟩, ⟨.text "\n", ⟨4, 3⟩⟩,
      ⟨.endOfLine, ⟨4, 4⟩⟩, ⟨.text "c", ⟨5, 1⟩⟩, ⟨.endOfLine, ⟨5, 2⟩⟩] := by
    cbv
  obtain ⟨whole, next, hwhole, hkinds, hafter⟩ := (lines_agree_with_whole source).1 _ hlines
  have hclosed : (Lexer.afterLines {} (Text.lines source.toList)).inBlock = false := by
    cbv
  exact ⟨_, whole, next, hlines, rfl, hwhole, hkinds.trans (by cbv), hafter.trans hclosed⟩

/-- A string literal may go over the end of a line only where the line is not read by itself. -/
example : (Lexer.readLine {} "\x7b\x7b\"\n\"".toList).1.toOption.isSome = true ∧
    tokenize "\x7b\x7b\"\n\"" = .error ⟨.unterminatedString, ⟨1, 3⟩⟩ := by
  cbv

end PageTemplate
