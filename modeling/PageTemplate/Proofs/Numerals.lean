import Mathlib.Data.Nat.Digits.Defs
import PageTemplate.Proofs.Arithmetic
import PageTemplate.Proofs.Comparisons

namespace PageTemplate

namespace Text

def IsDigits (cs : List Char) : Prop := cs ≠ [] ∧ ∀ c ∈ cs, c.isDigit = true

def digitValue (c : Char) : Nat := c.toNat - '0'.toNat

def placeValue (digits : List Char) : Nat := Nat.ofDigits 10 (digits.map digitValue).reverse

/-- The integers and how they are spelled, with as many zeros in front as one likes. -/
inductive Numeral : List Char → Int → Prop
  | unsigned {digits : List Char} : IsDigits digits → Numeral digits (placeValue digits)
  | plus {digits : List Char} : IsDigits digits → Numeral ('+' :: digits) (placeValue digits)
  | minus {digits : List Char} : IsDigits digits → Numeral ('-' :: digits) (-placeValue digits)

/-- The first digit counts most. -/
theorem placeValue_cons (c : Char) (digits : List Char) :
    placeValue (c :: digits) = digitValue c * 10 ^ digits.length + placeValue digits := by
  rw [placeValue, List.map_cons, List.reverse_cons, Nat.ofDigits_append, Nat.ofDigits_singleton,
    List.length_reverse, List.length_map, placeValue, Nat.mul_comm (digitValue c), Nat.add_comm]

/-- Adding up the digits from the left, whatever was there before them. -/
theorem ofDigitChars_eq (digits : List Char) (before : Nat) :
    Nat.ofDigitChars 10 digits before = before * 10 ^ digits.length + placeValue digits := by
  induction digits generalizing before with
  | nil => simp [placeValue]
  | cons c digits ih =>
    have hstep : Nat.ofDigitChars 10 (c :: digits) before =
        Nat.ofDigitChars 10 digits (10 * before + digitValue c) := Nat.ofDigitChars_cons
    rw [hstep, ih, placeValue_cons, List.length_cons, Nat.pow_succ]
    ring

theorem ofDigitChars_zero (digits : List Char) :
    Nat.ofDigitChars 10 digits 0 = placeValue digits := by
  rw [ofDigitChars_eq, Nat.zero_mul, Nat.zero_add]

/-- Reading digits gives their value, and nothing else can be read. -/
theorem readDigits?_eq_some_iff {cs : List Char} {n : Nat} :
    readDigits? cs = some n ↔ IsDigits cs ∧ placeValue cs = n := by
  simp [readDigits?, IsDigits, ofDigitChars_zero]

/-- Reading accepts the spellings of integers and no others. -/
theorem readInteger?_eq_some_iff {cs : List Char} {k : Int} :
    readInteger? cs = some k ↔ Numeral cs k := by
  constructor
  · intro h
    unfold readInteger? at h
    split at h
    all_goals
      obtain ⟨_, hlifted, rfl⟩ := Option.map_eq_some_iff.1 h
      obtain ⟨n, hread, ⟨⟩⟩ := Option.bind_eq_some_iff.1 hlifted
      obtain ⟨hdigits, rfl⟩ := readDigits?_eq_some_iff.1 hread
    · exact .minus hdigits
    · exact .plus hdigits
    · exact .unsigned hdigits
  · intro h
    cases h with
    | unsigned hdigits =>
      unfold readInteger?
      split
      · exact absurd (hdigits.2 _ List.mem_cons_self) (by decide)
      · exact absurd (hdigits.2 _ List.mem_cons_self) (by decide)
      · rw [readDigits?_eq_some_iff.2 ⟨hdigits, rfl⟩]
        rfl
    | plus hdigits | minus hdigits =>
      rw [readInteger?, readDigits?_eq_some_iff.2 ⟨hdigits, rfl⟩]
      rfl

/-- A text is read as a word just if it is a numeral of the word. -/
theorem readInt64?_eq_some_iff {s : String} {n : Int64} :
    readInt64? s = some n ↔ Numeral s.toList n.toInt := by
  rw [readInt64?, Option.bind_eq_bind, Option.bind_eq_some_iff, ← readInteger?_eq_some_iff]
  constructor
  · rintro ⟨k, hread, hword⟩
    rw [hread, int64_eq_some.1 hword]
  · intro hread
    exact ⟨n.toInt, hread, int64_eq_some.2 rfl⟩

/-- What is written is read back. -/
theorem readInt64?_decimal (n : Int64) : readInt64? (decimal n) = some n := by
  rw [readInt64?, readInteger?_decimal]
  exact int64_eq_some.2 rfl

end Text

namespace Value

def SameResult {α : Type} (first second : Except EvalError α) : Prop :=
  ∀ result, first = .ok result ↔ second = .ok result

theorem SameResult.bind {α β : Type} {first second : Except EvalError α}
    (h : SameResult first second) (next : α → Except EvalError β) :
    SameResult (first >>= next) (second >>= next) := by
  intro result
  cases first with
  | ok a =>
    rw [(h a).1 rfl]
  | error e =>
    cases second with
    | ok a => cases (h a).2 rfl
    | error e' => exact ⟨nofun, nofun⟩

section

variable {left right left' right' : Value} (pos : Position)

/-- Operands are looked at for their integers only; an error also names their types. -/
theorem intOperands_sameResult (hleft : left.coerceInt? = left'.coerceInt?)
    (hright : right.coerceInt? = right'.coerceInt?) (op : String) :
    SameResult (intOperands op left right pos) (intOperands op left' right' pos) := by
  unfold intOperands
  rw [hleft, hright]
  split
  · exact fun _ => Iff.rfl
  · exact fun _ => ⟨nofun, nofun⟩

/-- Arithmetic asks its operands for integers and for nothing else. -/
theorem arithmetic_sameResult (hleft : left.coerceInt? = left'.coerceInt?)
    (hright : right.coerceInt? = right'.coerceInt?)
    {operation : Value → Value → Position → Except EvalError Value}
    (h : operation ∈ [sub, mul, div, rem]) :
    SameResult (operation left right pos) (operation left' right' pos) := by
  have hoperands := intOperands_sameResult pos hleft hright
  simp only [List.mem_cons, List.not_mem_nil, or_false] at h
  rcases h with rfl | rfl | rfl | rfl
  · exact (hoperands "-").bind _
  · exact (hoperands "*").bind _
  · exact (hoperands "/").bind _
  · exact (hoperands "%").bind _

/-- The relational operators look at the order of their operands only, where there is one. -/
theorem relate_eq_of_order? {order : Ordering} (h : order? left right = some order)
    (h' : order? left' right' = some order) {op : String}
    (hop : op ∈ ["==", "!=", "<", ">", "<=", ">="]) :
    relate op left right pos = relate op left' right' pos := by
  have hequal := equal?_of_order? h
  have hequal' := equal?_of_order? h'
  simp only [List.mem_cons, List.not_mem_nil, or_false] at hop
  rcases hop with rfl | rfl | rfl | rfl | rfl | rfl <;>
    simp only [relate, equality, comparison, h, h', hequal, hequal']

end

/-- A text is read as an integer if it is an optional sign with digits behind it that spell one in
the range of words, and every word is read from its decimal text. In differences, products,
quotients and remainders such a text gives what its integer gives, on either side, and so it does in
comparisons with an integer. -/
theorem numerals_count_as_integers :
    (∀ s n, Text.readInt64? s = some n ↔ Text.Numeral s.toList n.toInt) ∧
    (∀ n, Text.readInt64? (Text.decimal n) = some n) ∧
    ∀ s n, Text.readInt64? s = some n → ∀ pos,
      (∀ operation ∈ [sub, mul, div, rem], ∀ value,
        SameResult (operation (str s) value pos) (operation (int n) value pos) ∧
        SameResult (operation value (str s) pos) (operation value (int n) pos)) ∧
      ∀ op ∈ ["==", "!=", "<", ">", "<=", ">="], ∀ m,
        relate op (str s) (int m) pos = relate op (int n) (int m) pos ∧
        relate op (int m) (str s) pos = relate op (int m) (int n) pos := by
  refine ⟨fun _ _ => Text.readInt64?_eq_some_iff, Text.readInt64?_decimal, ?_⟩
  intro s n hread pos
  have hcoerce : (str s).coerceInt? = (int n).coerceInt? := hread
  refine ⟨fun operation hoperation value => ?_, fun op hop m => ?_⟩
  · exact ⟨arithmetic_sameResult pos hcoerce rfl hoperation,
      arithmetic_sameResult pos rfl hcoerce hoperation⟩
  · have hleft : order? (str s) (int m) = some (compare n.toInt m.toInt) := by
      rw [order?, hread, Option.map_some]
    have hright : order? (int m) (str s) = some (compare m.toInt n.toInt) := by
      rw [order?, hread, Option.map_some]
    exact ⟨relate_eq_of_order? pos hleft rfl hop, relate_eq_of_order? pos hright rfl hop⟩

/-- The smallest word, with a zero in front: it is read, it has no quotient by minus one, and its
half is that of the integer. -/
theorem numerals_count_as_integers_at_end :
    let smallest := "-09223372036854775808"
    let pos : Position := ⟨1, 4⟩
    Text.readInt64? smallest = some Int64.minValue ∧
    (∀ result, div (str smallest) (int (-1)) pos ≠ .ok result) ∧
    div (str smallest) (int 2) pos = .ok (int (-4611686018427387904)) ∧
    relate "<" (int 0) (str smallest) pos = .ok (.bool false) := by
  intro smallest pos
  obtain ⟨hspelled, -, hcounts⟩ := numerals_count_as_integers
  have hread : Text.readInt64? smallest = some Int64.minValue := by decide +kernel
  obtain ⟨harithmetic, hrelations⟩ := hcounts smallest Int64.minValue hread pos
  have hdiv (value : Value) := (harithmetic div (by simp) value).1
  refine ⟨hread, fun result hresult => ?_, (hdiv (int 2) _).2 rfl, ?_⟩
  · have hfails : div (int Int64.minValue) (int (-1)) pos = .error (.integerOverflow pos) := rfl
    rw [(hdiv (int (-1)) result).1 hresult] at hfails
    cases hfails
  · rw [(hrelations "<" (by simp) 0).2]
    rfl

end Value
end PageTemplate
