import Mathlib
import PageTemplate.Proofs.TokenEnds

/-!
A line that can be read is cut into stretches: blanks inside the blocks, and tokens with the
characters that they are written with. Nothing is left out and nothing is read twice, so the tokens
of a document stand one behind the other. A line is cut so that every stretch fits its place and
ends where nothing goes on with it, up to the end of the line or to a fault.
-/

namespace PageTemplate

def Position.Before (a b : Position) : Prop :=
  a.line < b.line ∨ a.line = b.line ∧ a.column < b.column

/-- Part of a line: a blank, or a token with its characters. -/
inductive Stretch
  | blank (c : Char)
  | token (kind : TokenKind) (chars : List Char)

namespace Stretch

def chars : Stretch → List Char
  | .blank c => [c]
  | .token _ chars => chars

def tokens (line : Nat) : Nat → List Stretch → List Token
  | _, [] => []
  | column, .blank _ :: rest => tokens line (column + 1) rest
  | column, .token kind chars :: rest =>
    ⟨kind, ⟨line, column⟩⟩ :: tokens line (column + chars.length) rest

def delimiter? : Stretch → Option Delimiter
  | .token (.delimiter d) _ => some d
  | _ => none

def inBlockAfter (inBlock : Bool) (stretches : List Stretch) : Bool :=
  match (stretches.filterMap delimiter?).getLast? with
  | some d => d ≠ .blockClose
  | none => inBlock

def Fits (inBlock : Bool) : Stretch → Prop
  | .blank c => inBlock = true ∧ Text.isBlank c = true
  | .token kind chars => kind.SpelledBy chars ∧ kind.Stands inBlock

/-- Every stretch fits its place, which the stretches in front of it decide. -/
def Placed (inBlock : Bool) (stretches : List Stretch) : Prop :=
  ∀ before stretch behind, stretches = before ++ stretch :: behind →
    stretch.Fits (inBlockAfter inBlock before)

def EndsBefore : Stretch → List Char → Prop
  | .blank _, _ => True
  | .token kind _, rest => kind.EndsBefore rest

/-- Every stretch ends where the next one begins, and the last one in front of the rest. -/
def Ended (rest : List Char) (stretches : List Stretch) : Prop :=
  ∀ before stretch behind, stretches = before ++ stretch :: behind →
    stretch.EndsBefore (behind.flatMap chars ++ rest)

theorem inBlockAfter_cons (inBlock : Bool) (first : Stretch) (rest : List Stretch) :
    inBlockAfter inBlock (first :: rest) = inBlockAfter (inBlockAfter inBlock [first]) rest := by
  unfold inBlockAfter
  cases hfirst : first.delimiter? with
  | none => simp [hfirst]
  | some d =>
    rw [List.filterMap_cons_some hfirst, List.getLast?_cons]
    cases (rest.filterMap delimiter?).getLast? <;> simp [hfirst]

theorem inBlockAfter_blank (inBlock : Bool) (c : Char) :
    inBlockAfter inBlock [.blank c] = inBlock := rfl

theorem inBlockAfter_token (inBlock : Bool) (kind : TokenKind) (chars : List Char) :
    inBlockAfter inBlock [.token kind chars] = Lexeme.inBlockAfter inBlock kind := by
  cases kind with
  | delimiter d => cases d <;> rfl
  | _ => rfl

theorem inBlockAfter_append (inBlock : Bool) (front back : List Stretch) :
    inBlockAfter inBlock (front ++ back) = inBlockAfter (inBlockAfter inBlock front) back := by
  induction front generalizing inBlock with
  | nil => rfl
  | cons first front ih =>
    rw [List.cons_append, inBlockAfter_cons, ih, ← inBlockAfter_cons]

theorem placed_nil (inBlock : Bool) : Placed inBlock [] := by
  intro before stretch behind h
  simp at h

theorem placed_cons_iff {inBlock : Bool} {first : Stretch} {rest : List Stretch} :
    Placed inBlock (first :: rest) ↔
      first.Fits inBlock ∧ Placed (inBlockAfter inBlock [first]) rest := by
  constructor
  · intro h
    refine ⟨h [] first rest rfl, fun before stretch behind hsplit => ?_⟩
    rw [← inBlockAfter_cons]
    exact h (first :: before) stretch behind (congrArg (first :: ·) hsplit)
  · rintro ⟨hfirst, hrest⟩ before stretch behind h
    cases before with
    | nil =>
      obtain ⟨rfl, -⟩ := List.cons.inj h
      exact hfirst
    | cons other before =>
      obtain ⟨rfl, hsplit⟩ := List.cons.inj h
      rw [inBlockAfter_cons]
      exact hrest before stretch behind hsplit

theorem placed_append_iff {inBlock : Bool} {front back : List Stretch} :
    Placed inBlock (front ++ back) ↔
      Placed inBlock front ∧ Placed (inBlockAfter inBlock front) back := by
  induction front generalizing inBlock with
  | nil => exact ⟨fun h => ⟨placed_nil inBlock, h⟩, And.right⟩
  | cons first front ih =>
    rw [List.cons_append, placed_cons_iff, placed_cons_iff, ih, and_assoc,
      inBlockAfter_cons inBlock first front]

theorem ended_nil (rest : List Char) : Ended rest [] := by
  intro before stretch behind h
  simp at h

theorem ended_cons_iff {rest : List Char} {first : Stretch} {stretches : List Stretch} :
    Ended rest (first :: stretches) ↔
      first.EndsBefore (stretches.flatMap chars ++ rest) ∧ Ended rest stretches := by
  constructor
  · intro h
    refine ⟨h [] first stretches rfl, fun before stretch behind hsplit => ?_⟩
    exact h (first :: before) stretch behind (congrArg (first :: ·) hsplit)
  · rintro ⟨hfirst, hlater⟩ before stretch behind h
    cases before with
    | nil =>
      obtain ⟨rfl, rfl⟩ := List.cons.inj h
      exact hfirst
    | cons other before =>
      obtain ⟨rfl, hsplit⟩ := List.cons.inj h
      exact hlater before stretch behind hsplit

theorem ended_append_iff {rest : List Char} {front back : List Stretch} :
    Ended rest (front ++ back) ↔ Ended (back.flatMap chars ++ rest) front ∧ Ended rest back := by
  induction front with
  | nil => exact ⟨fun h => ⟨ended_nil _, h⟩, And.right⟩
  | cons first front ih =>
    rw [List.cons_append, ended_cons_iff, ended_cons_iff, ih, and_assoc, List.flatMap_append,
      List.append_assoc]

theorem Fits.chars_ne_nil {inBlock : Bool} {stretch : Stretch} (h : stretch.Fits inBlock) :
    stretch.chars ≠ [] := by
  cases stretch with
  | blank c => exact List.cons_ne_nil c []
  | token kind chars => exact h.1.ne_nil h.2.ne_endOfLine

/-- Text stands outside the blocks. -/
theorem Fits.outside_of_text {inBlock : Bool} {content : String} {cs : List Char}
    (h : (Stretch.token (.text content) cs).Fits inBlock) : inBlock = false := by
  cases inBlock with
  | false => rfl
  | true => exact absurd rfl (h.2.1 content)

theorem Placed.chars_ne_nil {inBlock : Bool} {stretches : List Stretch}
    (h : Placed inBlock stretches) : ∀ stretch ∈ stretches, stretch.chars ≠ [] := by
  intro stretch hmem
  obtain ⟨before, behind, hsplit⟩ := List.append_of_mem hmem
  exact (h before stretch behind hsplit).chars_ne_nil

theorem Placed.eq_nil {inBlock : Bool} {stretches : List Stretch} (h : Placed inBlock stretches)
    (hchars : stretches.flatMap chars = []) : stretches = [] := by
  cases stretches with
  | nil => rfl
  | cons first rest =>
    have hfirst := h.chars_ne_nil first List.mem_cons_self
    exact absurd (List.append_eq_nil_iff.1 hchars).1 hfirst

theorem Placed.behind {inBlock : Bool} {before behind : List Stretch} {stretch : Stretch}
    (h : Placed inBlock (before ++ stretch :: behind)) :
    Placed (inBlockAfter (inBlockAfter inBlock before) [stretch]) behind :=
  (placed_cons_iff.1 (placed_append_iff.1 h).2).2

/-- The tokens of stretches are those of the stretches that are no blanks, each at its column. -/
theorem mem_tokens_iff {line column : Nat} {stretches : List Stretch} {token : Token} :
    token ∈ tokens line column stretches ↔
      ∃ before kind cs behind, stretches = before ++ .token kind cs :: behind ∧
        token = ⟨kind, ⟨line, column + (before.flatMap chars).length⟩⟩ := by
  induction stretches generalizing column with
  | nil => simp [tokens]
  | cons first stretches ih =>
    -- a token is that of the first stretch, or one further on
    have hlater (next : Nat) (hnext : next = column + first.chars.length) :
        token ∈ tokens line next stretches ↔
          ∃ before kind cs behind, stretches = before ++ .token kind cs :: behind ∧
            token = ⟨kind, ⟨line, column + ((first :: before).flatMap chars).length⟩⟩ := by
      rw [ih, hnext]
      simp only [List.flatMap_cons, List.length_append, Nat.add_assoc]
    cases first with
    | blank c =>
      rw [tokens, hlater (column + 1) rfl]
      constructor
      · rintro ⟨before, kind, cs, behind, rfl, rfl⟩
        exact ⟨.blank c :: before, kind, cs, behind, rfl, rfl⟩
      · rintro ⟨before, kind, cs, behind, hsplit, rfl⟩
        cases before with
        | nil => cases hsplit
        | cons other before =>
          obtain ⟨rfl, rfl⟩ := List.cons.inj hsplit
          exact ⟨before, kind, cs, behind, rfl, rfl⟩
    | token kind cs =>
      rw [tokens, List.mem_cons, hlater (column + cs.length) rfl]
      constructor
      · rintro (rfl | ⟨before, kind', cs', behind, rfl, rfl⟩)
        · exact ⟨[], kind, cs, stretches, rfl, rfl⟩
        · exact ⟨.token kind cs :: before, kind', cs', behind, rfl, rfl⟩
      · rintro ⟨before, kind', cs', behind, hsplit, rfl⟩
        cases before with
        | nil =>
          cases hsplit
          exact .inl rfl
        | cons other before =>
          obtain ⟨rfl, rfl⟩ := List.cons.inj hsplit
          exact .inr ⟨before, kind', cs', behind, rfl, rfl⟩

/-- The tokens of stretches lie between the ends of these. -/
theorem mem_tokens {stretches : List Stretch} (h : ∀ stretch ∈ stretches, stretch.chars ≠ [])
    {line column : Nat} {token : Token} (hmem : token ∈ tokens line column stretches) :
    token.pos.line = line ∧ column ≤ token.pos.column ∧
      token.pos.column < column + (stretches.flatMap chars).length := by
  obtain ⟨before, kind, cs, behind, rfl, rfl⟩ := mem_tokens_iff.1 hmem
  have hpos : 0 < cs.length :=
    List.length_pos_iff.2 (h (.token kind cs) (List.mem_append_right _ List.mem_cons_self))
  refine ⟨rfl, Nat.le_add_right _ _, ?_⟩
  rw [List.flatMap_append, List.flatMap_cons, List.length_append, List.length_append, chars]
  dsimp only
  omega

theorem pairwise_tokens {stretches : List Stretch} (h : ∀ stretch ∈ stretches, stretch.chars ≠ [])
    (line column : Nat) :
    (tokens line column stretches).Pairwise fun a b => a.pos.Before b.pos := by
  fun_induction tokens line column stretches with
  | case1 => exact .nil
  | case2 column c rest ih => exact ih (List.forall_mem_cons.1 h).2
  | case3 column kind chars rest ih =>
    obtain ⟨hfirst, hrest⟩ := List.forall_mem_cons.1 h
    refine .cons (fun token hmem => ?_) (ih hrest)
    obtain ⟨hline, hleft, -⟩ := mem_tokens hrest hmem
    have hpos : 0 < chars.length := List.length_pos_iff.2 hfirst
    exact .inr ⟨hline.symm, Nat.lt_of_lt_of_le (Nat.lt_add_of_pos_right hpos) hleft⟩

end Stretch

namespace Lexer

theorem scan_blank {c : Char} (hblank : Text.isBlank c = true) (line column : Nat)
    (rest : List Char) :
    scan line true column (c :: rest) = scan line true (column + 1) rest := by
  have hread : Lexeme.read true c rest = .ok .blank := by
    simp [Lexeme.read, Lexeme.inside, hblank]
  rw [scan, hread]

/-- A spelling with which nothing goes on is read as its token, and then what is behind. -/
theorem scan_spelled {inBlock : Bool} {kind : TokenKind} {cs rest : List Char}
    (hspelled : kind.SpelledBy cs) (hstands : kind.Stands inBlock) (hends : kind.EndsBefore rest)
    (line column : Nat) :
    let later := scan line (Lexeme.inBlockAfter inBlock kind) (column + cs.length) rest
    scan line inBlock column (cs ++ rest) =
      (later.1.map (⟨kind, ⟨line, column⟩⟩ :: ·), later.2) := by
  obtain ⟨c, cs, rfl⟩ := List.exists_cons_of_ne_nil (hspelled.ne_nil hstands.ne_endOfLine)
  have hread := Lexeme.read_of_spelledBy hspelled hstands hends
  rw [List.cons_append, scan, hread]
  dsimp only
  rw [List.drop_left, Nat.add_assoc, ← List.length_cons]

/-- Stretches that are placed and ended are read one after the other, and then what is behind. -/
theorem scan_append {inBlock : Bool} {stretches : List Stretch} {rest : List Char}
    (hplaced : Stretch.Placed inBlock stretches) (hended : Stretch.Ended rest stretches)
    (line column : Nat) :
    let later := scan line (Stretch.inBlockAfter inBlock stretches)
      (column + (stretches.flatMap Stretch.chars).length) rest
    scan line inBlock column (stretches.flatMap Stretch.chars ++ rest) =
      (later.1.map (Stretch.tokens line column stretches ++ ·), later.2) := by
  induction stretches generalizing inBlock column with
  | nil =>
    intro later
    have hlater : later = scan line inBlock column rest := rfl
    rw [List.flatMap_nil, List.nil_append, ← hlater]
    rcases later with ⟨_ | tokens, last⟩ <;> rfl
  | cons first stretches ih =>
    obtain ⟨hfits, hplacedRest⟩ := Stretch.placed_cons_iff.1 hplaced
    obtain ⟨hends, hendedRest⟩ := Stretch.ended_cons_iff.1 hended
    rw [List.flatMap_cons, List.append_assoc, List.length_append, ← Nat.add_assoc,
      Stretch.inBlockAfter_cons]
    -- the first stretch is read in front of the others, which begin in a later column
    cases first with
    | blank c =>
      obtain ⟨rfl, hblank⟩ := hfits
      rw [Stretch.chars, List.singleton_append, scan_blank hblank]
      exact ih hplacedRest hendedRest (column + 1)
    | token kind cs =>
      rw [Stretch.inBlockAfter_token] at hplacedRest ⊢
      rw [Stretch.chars, scan_spelled hfits.1 hfits.2 hends,
        ih hplacedRest hendedRest (column + cs.length)]
      rcases scan line _ _ rest with ⟨_ | tokens, last⟩ <;> rfl

/-- Reading cuts a line into stretches, to its end or to a fault inside a block. -/
theorem exists_cut (line column : Nat) (inBlock : Bool) (cs : List Char) :
    ∃ stretches rest, cs = stretches.flatMap Stretch.chars ++ rest ∧
      Stretch.Placed inBlock stretches ∧ Stretch.Ended rest stretches ∧
      (rest = [] ∨ ∃ c behind fault, rest = c :: behind ∧
        Stretch.inBlockAfter inBlock stretches = true ∧
        Lexeme.inside c behind = .error fault) := by
  -- the end of the line, a fault, a blank, or a token in front of what is read later
  fun_induction scan line inBlock column cs with
  | case1 inBlock column =>
    exact ⟨[], [], rfl, Stretch.placed_nil inBlock, Stretch.ended_nil [], .inl rfl⟩
  | case2 inBlock column c rest fault hread =>
    -- outside the blocks everything can be read
    cases inBlock with
    | false => cases hread
    | true =>
      exact ⟨[], c :: rest, rfl, Stretch.placed_nil true, Stretch.ended_nil _,
        .inr ⟨c, rest, fault, rfl, rfl, hread⟩⟩
  | case3 inBlock column c rest hread ih =>
    obtain ⟨stretches, behind, rfl, hplaced, hended, hlast⟩ := ih
    have hblank : inBlock = true ∧ Text.isBlank c = true := by
      rcases Lexeme.read_spells hread with ⟨-, hblank⟩ | ⟨kind, ⟨more, hkind, -⟩, -⟩
      · exact hblank
      · cases hkind
    refine ⟨.blank c :: stretches, behind, rfl, Stretch.placed_cons_iff.2 ⟨hblank, hplaced⟩,
      Stretch.ended_cons_iff.2 ⟨trivial, hended⟩, ?_⟩
    rwa [Stretch.inBlockAfter_cons, Stretch.inBlockAfter_blank]
  | case4 inBlock column c rest kind more hread =>
    rename_i after scanned ih
    obtain ⟨hspelled, hstands⟩ :
        kind.SpelledBy (c :: rest.take more) ∧ kind.Stands inBlock := by
      rcases Lexeme.read_spells hread with ⟨hblank, -⟩ | ⟨kind', ⟨more', heq, hspells⟩, hstands⟩
      · cases hblank
      · cases heq
        exact ⟨hspells.2, hstands⟩
    obtain ⟨stretches, behind, hcut, hplaced, hended, hlast⟩ := ih
    have hafter := Stretch.inBlockAfter_token inBlock kind (c :: rest.take more)
    have hends : kind.EndsBefore (stretches.flatMap Stretch.chars ++ behind) :=
      hcut ▸ Lexeme.read_ends hread
    refine ⟨.token kind (c :: rest.take more) :: stretches, behind, ?_,
      Stretch.placed_cons_iff.2 ⟨⟨hspelled, hstands⟩, hafter ▸ hplaced⟩,
      Stretch.ended_cons_iff.2 ⟨hends, hended⟩, ?_⟩
    · rw [List.flatMap_cons, List.append_assoc, ← hcut, Stretch.chars, List.cons_append,
        List.take_append_drop]
    · rwa [Stretch.inBlockAfter_cons, hafter]

theorem scan_eq_error {line column : Nat} {c : Char} {rest : List Char} {fault : LexFault}
    (h : Lexeme.inside c rest = .error fault) :
    scan line true column (c :: rest) = (.error ⟨fault, ⟨line, column⟩⟩, true) := by
  have hread : Lexeme.read true c rest = .error fault := h
  rw [scan, hread]

/-- What can be read to its end is made of stretches, and gives their tokens. -/
theorem scan_eq_ok_iff {line column : Nat} {inBlock last : Bool} {cs : List Char}
    {tokens : List Token} :
    scan line inBlock column cs = (.ok tokens, last) ↔
      ∃ stretches : List Stretch, cs = stretches.flatMap Stretch.chars ∧
        Stretch.Placed inBlock stretches ∧ Stretch.Ended [] stretches ∧
        tokens = Stretch.tokens line column stretches ++
          [⟨.endOfLine, ⟨line, column + cs.length⟩⟩] ∧
        last = Stretch.inBlockAfter inBlock stretches := by
  constructor
  · intro h
    obtain ⟨stretches, rest, rfl, hplaced, hended, hrest⟩ := exists_cut line column inBlock cs
    rw [scan_append hplaced hended] at h
    rcases hrest with rfl | ⟨c, behind, fault, rfl, hinside, hfault⟩
    · rw [scan] at h
      cases h
      exact ⟨stretches, List.append_nil _, hplaced, hended, by rw [List.append_nil], rfl⟩
    · rw [hinside, scan_eq_error hfault] at h
      cases h
  · rintro ⟨stretches, rfl, hplaced, hended, rfl, rfl⟩
    have hscan := scan_append hplaced hended line column
    rwa [List.append_nil, scan] at hscan

/-- Reading fails at the first place inside a block where no token begins. -/
theorem scan_eq_error_iff {line column : Nat} {inBlock : Bool} {cs : List Char} {e : LexError} :
    (scan line inBlock column cs).1 = .error e ↔
      ∃ (stretches : List Stretch) (c : Char) (rest : List Char),
        cs = stretches.flatMap Stretch.chars ++ c :: rest ∧
        Stretch.Placed inBlock stretches ∧ Stretch.Ended (c :: rest) stretches ∧
        Stretch.inBlockAfter inBlock stretches = true ∧
        Lexeme.inside c rest = .error e.fault ∧
        e.pos = ⟨line, column + (stretches.flatMap Stretch.chars).length⟩ := by
  constructor
  · intro h
    obtain ⟨stretches, rest, rfl, hplaced, hended, hrest⟩ := exists_cut line column inBlock cs
    rw [scan_append hplaced hended] at h
    rcases hrest with rfl | ⟨c, behind, fault, rfl, hinside, hfault⟩
    · rw [scan] at h
      cases h
    · rw [hinside, scan_eq_error hfault] at h
      cases h
      exact ⟨stretches, c, behind, rfl, hplaced, hended, hinside, hfault, rfl⟩
  · rintro ⟨stretches, c, rest, rfl, hplaced, hended, hinside, hfault, hpos⟩
    obtain ⟨fault, pos⟩ := e
    subst hpos
    rw [scan_append hplaced hended, hinside, scan_eq_error hfault]
    rfl

theorem readLine_eq_ok_iff {lexer next : Lexer} {line : List Char} {tokens : List Token} :
    lexer.readLine line = (.ok tokens, next) ↔
      ∃ stretches : List Stretch, line = stretches.flatMap Stretch.chars ∧
        Stretch.Placed lexer.inBlock stretches ∧ Stretch.Ended [] stretches ∧
        tokens = Stretch.tokens (lexer.line + 1) 1 stretches ++
          [⟨.endOfLine, ⟨lexer.line + 1, line.length + 1⟩⟩] ∧
        next = ⟨lexer.line + 1, Stretch.inBlockAfter lexer.inBlock stretches⟩ := by
  rw [Nat.add_comm line.length]
  constructor
  · intro h
    rcases hscanned : scan (lexer.line + 1) lexer.inBlock 1 line with ⟨result, last⟩
    rw [readLine, hscanned] at h
    cases h
    obtain ⟨stretches, hchars, hplaced, hended, htokens, rfl⟩ := scan_eq_ok_iff.1 hscanned
    exact ⟨stretches, hchars, hplaced, hended, htokens, rfl⟩
  · rintro ⟨stretches, hchars, hplaced, hended, htokens, rfl⟩
    rw [readLine, scan_eq_ok_iff.2 ⟨stretches, hchars, hplaced, hended, htokens, rfl⟩]

theorem readLine_stretches {lexer next : Lexer} {line : List Char} {tokens : List Token}
    (h : lexer.readLine line = (.ok tokens, next)) :
    ∃ stretches : List Stretch, line = stretches.flatMap Stretch.chars ∧
      tokens = Stretch.tokens (lexer.line + 1) 1 stretches ++
        [⟨.endOfLine, ⟨lexer.line + 1, line.length + 1⟩⟩] ∧
      Stretch.Placed lexer.inBlock stretches ∧
      next = ⟨lexer.line + 1, Stretch.inBlockAfter lexer.inBlock stretches⟩ := by
  obtain ⟨stretches, hchars, hplaced, -, htokens, hnext⟩ := readLine_eq_ok_iff.1 h
  exact ⟨stretches, hchars, htokens, hplaced, hnext⟩

/-- The tokens of one line are in order and are all on this line. -/
theorem readLine_pairwise {lexer next : Lexer} {line : List Char} {tokens : List Token}
    (h : lexer.readLine line = (.ok tokens, next)) :
    next.line = lexer.line + 1 ∧ (∀ token ∈ tokens, token.pos.line = lexer.line + 1) ∧
      tokens.Pairwise fun a b => a.pos.Before b.pos := by
  obtain ⟨stretches, hchars, rfl, hplaced, rfl⟩ := readLine_stretches h
  have hne := hplaced.chars_ne_nil
  refine ⟨rfl, fun token hmem => ?_, List.pairwise_append.2
    ⟨Stretch.pairwise_tokens hne _ _, List.pairwise_singleton _ _, fun a ha b hb => ?_⟩⟩
  · rcases List.mem_append.1 hmem with hmem | hmem
    · exact (Stretch.mem_tokens hne hmem).1
    · rw [List.mem_singleton.1 hmem]
  · obtain ⟨hline, -, hright⟩ := Stretch.mem_tokens hne ha
    rw [← hchars, Nat.add_comm 1] at hright
    rw [List.mem_singleton.1 hb]
    exact .inr ⟨hline, hright⟩

theorem readLines_cons_eq_ok_iff {lexer : Lexer} {line : List Char} {lines : List (List Char)}
    {tokens : List Token} :
    lexer.readLines (line :: lines) = .ok tokens ↔
      ∃ first next later, lexer.readLine line = (.ok first, next) ∧
        next.readLines lines = .ok later ∧ tokens = first ++ later := by
  constructor
  · intro h
    rcases hread : lexer.readLine line with ⟨_ | first, next⟩
    · simp only [readLines, hread] at h
      cases h
    · cases hlater : next.readLines lines with
      | error e =>
        simp only [readLines, hread, hlater] at h
        cases h
      | ok later =>
        simp only [readLines, hread, hlater] at h
        cases h
        exact ⟨first, next, later, rfl, hlater, rfl⟩
  · rintro ⟨first, next, later, hread, hlater, rfl⟩
    simp only [readLines, hread, hlater]
    rfl

/-- The tokens of lines are in order and behind the lines read before. -/
theorem readLines_pairwise {lexer : Lexer} {lines : List (List Char)} {tokens : List Token}
    (h : lexer.readLines lines = .ok tokens) :
    (∀ token ∈ tokens, lexer.line < token.pos.line) ∧
      tokens.Pairwise fun a b => a.pos.Before b.pos := by
  induction lines generalizing lexer tokens with
  | nil =>
    cases h
    exact ⟨nofun, .nil⟩
  | cons line lines ih =>
    obtain ⟨first, next, later, hread, hlater, rfl⟩ := readLines_cons_eq_ok_iff.1 h
    obtain ⟨hnext, hlines, hfirst⟩ := readLine_pairwise hread
    obtain ⟨hbehind, hrest⟩ := ih hlater
    rw [hnext] at hbehind
    refine ⟨fun token hmem => ?_, List.pairwise_append.2 ⟨hfirst, hrest, fun a ha b hb => ?_⟩⟩
    · rcases List.mem_append.1 hmem with hmem | hmem
      · exact hlines token hmem ▸ Nat.lt_succ_self _
      · exact Nat.lt_of_succ_lt (hbehind token hmem)
    · exact .inl (hlines a ha ▸ hbehind b hb)

end Lexer

/-- Nothing is lost in reading: a line that can be read is made of its blanks and of the spellings
of its tokens, each at its column, and the end of the line stands behind its last character. So the
tokens of a document stand one behind another. -/
theorem lines_are_stretches :
    (∀ (lexer next : Lexer) (line : List Char) (tokens : List Token),
      lexer.readLine line = (.ok tokens, next) →
      ∃ stretches : List Stretch, line = stretches.flatMap Stretch.chars ∧
        tokens = Stretch.tokens (lexer.line + 1) 1 stretches ++
          [⟨.endOfLine, ⟨lexer.line + 1, line.length + 1⟩⟩] ∧
        Stretch.Placed lexer.inBlock stretches ∧
        next = ⟨lexer.line + 1, Stretch.inBlockAfter lexer.inBlock stretches⟩) ∧
    ∀ (source : String) (tokens : List Token), tokenize source = .ok tokens →
      tokens.Pairwise fun a b => a.pos.Before b.pos :=
  ⟨fun _ _ _ _ => Lexer.readLine_stretches, fun _ _ h => (Lexer.readLines_pairwise h).2⟩

theorem stretches_of_open_block :
    ∃ tokens, Lexer.readLine {} "a\x7b\x7b: b.c-1".toList = (.ok tokens, ⟨1, true⟩) ∧
      tokens.map Token.kind = [.text "a", .delimiter .printOpen, .dottedName ["b", "c"],
        .operator .minus "-", .number 1, .endOfLine] ∧
      ∃ stretches : List Stretch, "a\x7b\x7b: b.c-1".toList = stretches.flatMap Stretch.chars ∧
        tokens = Stretch.tokens 1 1 stretches ++ [⟨.endOfLine, ⟨1, 11⟩⟩] ∧
        Stretch.Placed false stretches ∧
        ⟨1, true⟩ = Lexer.mk 1 (Stretch.inBlockAfter false stretches) := by
  have hread : Lexer.readLine {} "a\x7b\x7b: b.c-1".toList = (.ok
      [⟨.text "a", ⟨1, 1⟩⟩, ⟨.delimiter .printOpen, ⟨1, 2⟩⟩, ⟨.dottedName ["b", "c"], ⟨1, 6⟩⟩,
        ⟨.operator .minus "-", ⟨1, 9⟩⟩, ⟨.number 1, ⟨1, 10⟩⟩, ⟨.endOfLine, ⟨1, 11⟩⟩],
      ⟨1, true⟩) := by
    cbv
  exact ⟨_, hread, rfl, lines_are_stretches.1 {} _ _ _ hread⟩

end PageTemplate
