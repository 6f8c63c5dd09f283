import PageTemplate.Value.Operators

namespace PageTemplate

/-- The quotient of two words is a word, except for that of the smallest one by minus one. -/
theorem int64_tdiv_eq_none_iff {x y : Int64} (hy : y.toInt ≠ 0) :
    int64? (x.toInt.tdiv y.toInt) = none ↔ x = Int64.minValue ∧ y = -1 := by
  have hmin := Int64.toInt_minValue
  have hmax := Int64.toInt_maxValue
  have hone : (-1 : Int64).toInt = -1 := by decide
  have hword := Int64.minValue_le_toInt x
  have htop := Int64.toInt_le x
  have hle := Int.natAbs_tdiv_le_natAbs x.toInt y.toInt
  rw [int64_eq_none, ← Int64.toInt_inj, ← Int64.toInt_inj, hone]
  constructor
  · intro hout
    -- the quotient is no larger than the dividend, so it lies just above the words
    have hdividend : x.toInt = -9223372036854775808 := by omega
    have hquotient : (x.toInt.tdiv y.toInt).natAbs = 9223372036854775808 := by omega
    have hunit : y.toInt.natAbs < 2 := by
      refine Nat.lt_of_not_le fun hlarge => ?_
      have hhalf : x.toInt.natAbs / y.toInt.natAbs ≤ x.toInt.natAbs / 2 :=
        Nat.div_le_div_left (by omega) (by decide)
      have habs : (x.toInt.tdiv y.toInt).natAbs = x.toInt.natAbs / y.toInt.natAbs :=
        Int.natAbs_tdiv x.toInt y.toInt
      omega
    have hcases : y.toInt = 1 ∨ y.toInt = -1 := by omega
    rcases hcases with hpos | hneg
    · rw [hpos, Int.tdiv_one] at hout
      omega
    · omega
  · rintro ⟨hx, hneg⟩
    rw [hx, hneg, Int.tdiv_neg, Int.tdiv_one]
    omega

/-- A remainder is smaller than the divisor and so a word. -/
theorem exists_int64_tmod (x : Int64) {y : Int64} (hy : y.toInt ≠ 0) :
    ∃ r : Int64, int64? (x.toInt.tmod y.toInt) = some r ∧ r.toInt = x.toInt.tmod y.toInt ∧
      r.toInt.natAbs < y.toInt.natAbs := by
  have hmin := Int64.toInt_minValue
  have hmax := Int64.toInt_maxValue
  have hword := Int64.minValue_le_toInt y
  have htop := Int64.toInt_le y
  have hless : (x.toInt.tmod y.toInt).natAbs < y.toInt.natAbs := by
    rw [Int.natAbs_tmod]
    exact Nat.mod_lt _ (by omega)
  cases h : int64? (x.toInt.tmod y.toInt) with
  | none =>
    have hout := int64_eq_none.1 h
    omega
  | some r =>
    have hr := int64_eq_some.1 h
    exact ⟨r, rfl, hr, hr ▸ hless⟩

namespace Value

def Exact (n : Int) (pos : Position) (outcome : Except EvalError Value) : Prop :=
  if Int64.minValue.toInt ≤ n ∧ n ≤ Int64.maxValue.toInt then
    ∃ word : Int64, word.toInt = n ∧ outcome = .ok (.int word)
  else outcome = .error (.integerOverflow pos)

/-- The outcomes of a division with remainder. The quotient is truncated toward zero, so that the
remainder has the sign of the dividend. -/
def Divides (x y : Int64) (pos : Position) (quotient remainder : Except EvalError Value) : Prop :=
  if y = 0 then
    quotient = .error (.divisionByZero pos) ∧ remainder = .error (.divisionByZero pos)
  else if x = Int64.minValue ∧ y = -1 then
    quotient = .error (.integerOverflow pos) ∧ remainder = .error (.integerOverflow pos)
  else ∃ q r : Int64, quotient = .ok (.int q) ∧ remainder = .ok (.int r) ∧
    q.toInt = x.toInt.tdiv y.toInt ∧ x.toInt = y.toInt * q.toInt + r.toInt ∧
    r.toInt.natAbs < y.toInt.natAbs ∧ (r = 0 ∨ r.toInt.sign = x.toInt.sign)

theorem ofInt_exact (n : Int) (pos : Position) : Exact n pos (ofInt n pos) := by
  unfold Exact ofInt
  split
  · next hrange =>
    cases h : int64? n with
    | none => exact absurd hrange (int64_eq_none.1 h)
    | some word => exact ⟨word, int64_eq_some.1 h, rfl⟩
  · next hrange => rw [int64_eq_none.2 hrange]

section

variable {left right : Value} {x y : Int64} (pos : Position)

theorem intOperands_of_some (hleft : left.coerceInt? = some x) (hright : right.coerceInt? = some y)
    (op : String) : intOperands op left right pos = .ok (x.toInt, y.toInt) := by
  rw [intOperands, hleft, hright]

/-- One operand that is no integer is enough for a mismatch. -/
theorem intOperands_of_none (h : left.coerceInt? = none ∨ right.coerceInt? = none) (op : String) :
    intOperands op left right pos = .error (mismatch op left right pos) := by
  unfold intOperands
  split
  · next hleft hright => simp [hleft, hright] at h
  · rfl

/-- Differences are those of integers, as far as words go. -/
theorem sub_exact (hleft : left.coerceInt? = some x) (hright : right.coerceInt? = some y) :
    Exact (x.toInt - y.toInt) pos (sub left right pos) := by
  rw [sub, intOperands_of_some pos hleft hright]
  exact ofInt_exact _ pos

theorem mul_exact (hleft : left.coerceInt? = some x) (hright : right.coerceInt? = some y) :
    Exact (x.toInt * y.toInt) pos (mul left right pos) := by
  rw [mul, intOperands_of_some pos hleft hright]
  exact ofInt_exact _ pos

theorem div_eq (hleft : left.coerceInt? = some x) (hright : right.coerceInt? = some y) :
    div left right pos =
      if y.toInt = 0 then .error (.divisionByZero pos) else ofInt (x.toInt.tdiv y.toInt) pos := by
  rw [div, intOperands_of_some pos hleft hright]
  rfl

/-- The quotient is checked although only the remainder is wanted. -/
theorem rem_eq (hleft : left.coerceInt? = some x) (hright : right.coerceInt? = some y) :
    rem left right pos =
      if y.toInt = 0 then .error (.divisionByZero pos)
      else ofInt (x.toInt.tdiv y.toInt) pos >>= fun _ => ofInt (x.toInt.tmod y.toInt) pos := by
  rw [rem, intOperands_of_some pos hleft hright]
  rfl

/-- Once both operands are integers, zero and an overflow are all that can be in the way. -/
theorem divides (hleft : left.coerceInt? = some x) (hright : right.coerceInt? = some y) :
    Divides x y pos (div left right pos) (rem left right pos) := by
  rw [div_eq pos hleft hright, rem_eq pos hleft hright, Divides]
  by_cases hzero : y = 0
  · have hy : y.toInt = 0 := congrArg Int64.toInt hzero
    rw [if_pos hzero, if_pos hy, if_pos hy]
    exact ⟨rfl, rfl⟩
  · have hy : y.toInt ≠ 0 := fun h => hzero (Int64.toInt_inj.1 h)
    have hnone := @int64_tdiv_eq_none_iff x y hy
    rw [if_neg hzero, if_neg hy, if_neg hy]
    -- the remainder is asked for only if the quotient is a word
    by_cases hover : x = Int64.minValue ∧ y = -1
    · have hquotient : ofInt (x.toInt.tdiv y.toInt) pos = .error (.integerOverflow pos) := by
        rw [ofInt, hnone.2 hover]
      rw [if_pos hover, hquotient]
      exact ⟨rfl, rfl⟩
    · obtain ⟨q, hq⟩ := Option.ne_none_iff_exists'.1 (mt hnone.1 hover)
      obtain ⟨r, hr, hrest, hless⟩ := exists_int64_tmod x hy
      have hvalue := int64_eq_some.1 hq
      have hquotient : ofInt (x.toInt.tdiv y.toInt) pos = .ok (.int q) := by rw [ofInt, hq]
      have hremainder : ofInt (x.toInt.tmod y.toInt) pos = .ok (.int r) := by rw [ofInt, hr]
      rw [if_neg hover, hquotient, hremainder]
      refine ⟨q, r, rfl, rfl, hvalue, ?_, hless, ?_⟩
      · rw [hvalue, hrest]
        exact (Int.mul_tdiv_add_tmod _ _).symm
      · have hsign := Int.sign_tmod x.toInt y.toInt
        by_cases hdvd : y.toInt ∣ x.toInt
        · left
          apply Int64.toInt_inj.1
          rw [hrest]
          exact Int.tmod_eq_zero_of_dvd hdvd
        · right
          rw [if_neg hdvd] at hsign
          rw [hrest, hsign]

end

def IsSummand (value : Value) : Prop := value.type = .int ∨ value.type = .string

section

variable {left right : Value} (pos : Position)

/-- Where one summand is text, the texts of both are joined. -/
theorem add_texts (hleft : left.IsSummand) (hright : right.IsSummand)
    (htext : left.type = .string ∨ right.type = .string) :
    add left right pos = .ok (.str (left.text ++ right.text)) := by
  rcases hleft with hleft | hleft
  · rcases hright with hright | hright
    · -- two integers are added, not joined
      rw [hleft, hright] at htext
      rcases htext with h | h <;> cases h
    · cases left <;> cases hleft
      cases right <;> cases hright
      simp only [add, text, entryText]
  · cases left <;> cases hleft
    rcases hright with hright | hright
    · cases right <;> cases hright
      simp only [add, text, entryText]
    · cases right <;> cases hright
      rfl

theorem add_mismatch (h : ¬left.IsSummand ∨ ¬right.IsSummand) :
    add left right pos = .error (mismatch "+" left right pos) := by
  cases left with
  | bool | container => rfl
  | int m | str s =>
    cases right with
    | bool | container => rfl
    | int n | str t => simp [IsSummand, type] at h

end

/-- Only the smallest word has no negative among the words. -/
theorem negate_overflow_iff (n : Int64) (pos : Position) :
    negate (.int n) pos = .error (.integerOverflow pos) ↔ n = Int64.minValue := by
  have hmin := Int64.toInt_minValue
  have hmax := Int64.toInt_maxValue
  have hword := Int64.minValue_le_toInt n
  have htop := Int64.toInt_le n
  rw [negate, ofInt, ← Int64.toInt_inj]
  cases h : int64? (-n.toInt) with
  | none =>
    have hout := int64_eq_none.1 h
    exact ⟨fun _ => by omega, fun _ => rfl⟩
  | some word =>
    have hvalue := int64_eq_some.1 h
    have hbound := Int64.toInt_le word
    constructor
    · intro hover
      cases hover
    · intro hsmallest
      omega

/-- Differences, products, quotients and remainders of integers, sums of two integers and negatives
of one are exact or fail with the reason. So nothing wraps, and operands of other types fail before
anything else is looked at. A sum with a text is the two texts joined. -/
theorem arithmetic_is_exact_or_fails (left right : Value) (pos : Position) :
    (∀ x y, left.coerceInt? = some x → right.coerceInt? = some y →
      Exact (x.toInt - y.toInt) pos (sub left right pos) ∧
      Exact (x.toInt * y.toInt) pos (mul left right pos) ∧
      Divides x y pos (div left right pos) (rem left right pos)) ∧
    (left.coerceInt? = none ∨ right.coerceInt? = none →
      sub left right pos = .error (mismatch "-" left right pos) ∧
      mul left right pos = .error (mismatch "*" left right pos) ∧
      div left right pos = .error (mismatch "/" left right pos) ∧
      rem left right pos = .error (mismatch "%" left right pos)) ∧
    (∀ m n : Int64, Exact (m.toInt + n.toInt) pos (add (.int m) (.int n) pos)) ∧
    (left.IsSummand → right.IsSummand → left.type = .string ∨ right.type = .string →
      add left right pos = .ok (.str (left.text ++ right.text))) ∧
    (¬left.IsSummand ∨ ¬right.IsSummand →
      add left right pos = .error (mismatch "+" left right pos)) ∧
    (∀ n : Int64, Exact (-n.toInt) pos (negate (.int n) pos) ∧
      (negate (.int n) pos = .error (.integerOverflow pos) ↔ n = Int64.minValue)) ∧
    (left.type ≠ .int → negate left pos = .error (.operandType "-" left.type pos)) := by
  refine ⟨?integers, ?others, ?sum, add_texts pos, add_mismatch pos, ?negative, ?noInteger⟩
  case integers =>
    intro x y hleft hright
    exact ⟨sub_exact pos hleft hright, mul_exact pos hleft hright, divides pos hleft hright⟩
  case others =>
    intro h
    have hop := intOperands_of_none pos h
    rw [sub, mul, div, rem, hop, hop, hop, hop]
    exact ⟨rfl, rfl, rfl, rfl⟩
  case sum =>
    intro m n
    exact ofInt_exact (m.toInt + n.toInt) pos
  case negative =>
    intro n
    exact ⟨ofInt_exact (-n.toInt) pos, negate_overflow_iff n pos⟩
  case noInteger =>
    intro h
    cases left with
    | int n => exact absurd rfl h
    | str | bool | container => rfl

/-- The smallest word is read from a text and has no quotient by minus one. No integer is read from
`x`, and this comes before the zero beside it. -/
theorem arithmetic_is_exact_or_fails_at_ends :
    let pos : Position := ⟨1, 5⟩
    (str "-9223372036854775808").coerceInt? = some Int64.minValue ∧
    Divides Int64.minValue (-1) pos (div (str "-9223372036854775808") (int (-1)) pos)
      (rem (str "-9223372036854775808") (int (-1)) pos) ∧
    (str "x").coerceInt? = none ∧
    rem (str "x") (int 0) pos = .error (mismatch "%" (str "x") (int 0) pos) ∧
    add (str "1") (int 2) pos = .ok (.str "12") := by
  intro pos
  have hsmallest : (str "-9223372036854775808").coerceInt? = some Int64.minValue := by
    decide +kernel
  have hnone : (str "x").coerceInt? = none := by decide +kernel
  obtain ⟨hexact, -⟩ := arithmetic_is_exact_or_fails (str "-9223372036854775808") (int (-1)) pos
  obtain ⟨-, hfails, -⟩ := arithmetic_is_exact_or_fails (str "x") (int 0) pos
  obtain ⟨-, -, -, hjoined, -⟩ := arithmetic_is_exact_or_fails (str "1") (int 2) pos
  have hdivides := (hexact Int64.minValue (-1) hsmallest rfl).2.2
  have htext : (str "1").text ++ (int 2).text = "12" := by decide +kernel
  rw [htext] at hjoined
  exact ⟨hsmallest, hdivides, hnone, (hfails (.inl hnone)).2.2.2,
    hjoined (.inr rfl) (.inl rfl) (.inl rfl)⟩

end Value
end PageTemplate
