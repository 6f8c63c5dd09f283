namespace PageTemplate

def int64? (n : Int) : Option Int64 :=
  if h : Int64.minValue.toInt ≤ n ∧ n ≤ Int64.maxValue.toInt then
    some (Int64.ofIntLE n h.1 h.2)
  else none

theorem int64_eq_some {n : Int} {value : Int64} : int64? n = some value ↔ value.toInt = n := by
  unfold int64?
  constructor
  · intro h
    split at h
    · cases h
      exact Int64.toInt_ofIntLE
    · cases h
  · rintro rfl
    have hrange : Int64.minValue.toInt ≤ value.toInt ∧ value.toInt ≤ Int64.maxValue.toInt :=
      ⟨Int64.minValue_le_toInt value, Int64.toInt_le value⟩
    rw [dif_pos hrange]
    exact congrArg some (Int64.toInt_inj.1 Int64.toInt_ofIntLE)

theorem int64_eq_none {n : Int} :
    int64? n = none ↔ ¬(Int64.minValue.toInt ≤ n ∧ n ≤ Int64.maxValue.toInt) := by
  unfold int64?
  split
  · next h => exact ⟨nofun, fun hnot => absurd h hnot⟩
  · next h => exact ⟨fun _ => h, fun _ => rfl⟩

def clampInt64 (n : Int) : Int64 :=
  (int64? n).getD (if n < 0 then Int64.minValue else Int64.maxValue)

theorem toInt_clampInt64 (n : Int) :
    (clampInt64 n).toInt = max Int64.minValue.toInt (min n Int64.maxValue.toInt) := by
  have hmin : Int64.minValue.toInt = -9223372036854775808 := by decide
  have hmax : Int64.maxValue.toInt = 9223372036854775807 := by decide
  unfold clampInt64 int64?
  split
  · rw [Option.getD_some, Int64.toInt_ofIntLE]
    omega
  · rw [Option.getD_none]
    split <;> omega

namespace Text

def readDigits? (cs : List Char) : Option Nat :=
  if cs ≠ [] ∧ cs.all Char.isDigit then some (Nat.ofDigitChars 10 cs 0) else none

def readInteger? : List Char → Option Int
  | '-' :: cs => (readDigits? cs).map fun n => -(n : Int)
  | '+' :: cs => (readDigits? cs).map fun n => (n : Int)
  | cs => (readDigits? cs).map fun n => (n : Int)

def readInt64? (s : String) : Option Int64 := readInteger? s.toList >>= int64?

def decimalNat (n : Nat) : String := String.ofList (Nat.toDigits 10 n)

def decimal (n : Int64) : String :=
  if n.toInt < 0 then "-" ++ decimalNat n.toInt.natAbs else decimalNat n.toInt.natAbs

theorem readDigits?_toDigits (n : Nat) : readDigits? (Nat.toDigits 10 n) = some n := by
  have hdigits : (Nat.toDigits 10 n).all Char.isDigit = true :=
    List.all_eq_true.2 fun c hc => Nat.isDigit_of_mem_toDigits (by decide) (by decide) hc
  rw [readDigits?, if_pos ⟨Nat.toDigits_ne_nil, hdigits⟩, Nat.ofDigitChars_ten_toDigits]

theorem readInteger?_toDigits (n : Nat) : readInteger? (Nat.toDigits 10 n) = some (n : Int) := by
  have hdigit {c : Char} (hc : c ∈ Nat.toDigits 10 n) : c.isDigit = true :=
    Nat.isDigit_of_mem_toDigits (by decide) (by decide) hc
  have hread := readDigits?_toDigits n
  unfold readInteger?
  split
  · next h => exact absurd (hdigit (h ▸ List.mem_cons_self)) (by decide)
  · next h => exact absurd (hdigit (h ▸ List.mem_cons_self)) (by decide)
  · rw [hread]
    rfl

theorem decimalNat_injective {m n : Nat} (h : decimalNat m = decimalNat n) : m = n := by
  have hm := readDigits?_toDigits m
  rw [String.ofList_injective h, readDigits?_toDigits] at hm
  exact (Option.some.inj hm).symm

/-- A number that has been written is read as the same number. -/
theorem readInteger?_decimal (n : Int64) : readInteger? (decimal n).toList = some n.toInt := by
  have hsigned (digits : List Char) : ("-" ++ String.ofList digits).toList = '-' :: digits := by
    rw [String.toList_append, String.toList_ofList, String.toList_ofList]
    rfl
  unfold decimal
  split
  · next h =>
    have hvalue : -(n.toInt.natAbs : Int) = n.toInt := by omega
    rw [decimalNat, hsigned, readInteger?, readDigits?_toDigits]
    exact congrArg some hvalue
  · simp only [decimalNat, String.toList_ofList]
    exact (readInteger?_toDigits _).trans (congrArg some (by omega))

theorem decimal_injective {m n : Int64} (h : decimal m = decimal n) : m = n := by
  have hm := readInteger?_decimal m
  rw [h, readInteger?_decimal] at hm
  exact (Int64.toInt_inj.1 (Option.some.inj hm)).symm

/-- At least `width` characters, zeros filling up after the sign. -/
def paddedDecimal (width : Nat) (n : Int64) : String :=
  let digits := Nat.toDigits 10 n.toInt.natAbs
  if n.toInt < 0 then
    String.ofList ('-' :: List.replicate (width - 1 - digits.length) '0' ++ digits)
  else String.ofList (List.replicate (width - digits.length) '0' ++ digits)

theorem ofDigitChars_zeros (count n : Nat) :
    Nat.ofDigitChars 10 (List.replicate count '0' ++ Nat.toDigits 10 n) 0 = n := by
  induction count with
  | zero => exact Nat.ofDigitChars_ten_toDigits
  | succ count ih => exact Nat.ofDigitChars_cons.trans ih

theorem paddedDecimal_eq (width : Nat) {n : Int64} (hn : 0 < n.toInt) :
    ∃ zeros, (paddedDecimal width n).toList =
      List.replicate zeros '0' ++ Nat.toDigits 10 n.toInt.toNat := by
  have hsign : ¬n.toInt < 0 := by omega
  have habs : n.toInt.natAbs = n.toInt.toNat := by omega
  refine ⟨width - (Nat.toDigits 10 n.toInt.natAbs).length, ?_⟩
  rw [paddedDecimal, if_neg hsign, String.toList_ofList, habs]

theorem ofDigitChars_paddedDecimal (width : Nat) {n : Int64} (hn : 0 < n.toInt) :
    Nat.ofDigitChars 10 (paddedDecimal width n).toList 0 = n.toInt.toNat := by
  obtain ⟨zeros, hzeros⟩ := paddedDecimal_eq width hn
  rw [hzeros, ofDigitChars_zeros]

/-- However many zeros are put in front of it, a number can be read off its digits. -/
theorem paddedDecimal_injective {width : Nat} {m n : Int64} (hm : 0 < m.toInt) (hn : 0 < n.toInt)
    (h : paddedDecimal width m = paddedDecimal width n) : m = n := by
  have hvalue : m.toInt.toNat = n.toInt.toNat := calc
    m.toInt.toNat = Nat.ofDigitChars 10 (paddedDecimal width m).toList 0 :=
      (ofDigitChars_paddedDecimal width hm).symm
    _ = Nat.ofDigitChars 10 (paddedDecimal width n).toList 0 := by rw [h]
    _ = n.toInt.toNat := ofDigitChars_paddedDecimal width hn
  exact Int64.toInt_inj.1 (by omega)

theorem isDigit_of_mem_paddedDecimal {width : Nat} {n : Int64} (hn : 0 < n.toInt) {c : Char}
    (hc : c ∈ (paddedDecimal width n).toList) : c.isDigit = true := by
  obtain ⟨zeros, hzeros⟩ := paddedDecimal_eq width hn
  rw [hzeros] at hc
  rcases List.mem_append.1 hc with hzero | hdigit
  · rw [List.eq_of_mem_replicate hzero]
    rfl
  · exact Nat.isDigit_of_mem_toDigits (by decide) (by decide) hdigit

end Text
end PageTemplate
