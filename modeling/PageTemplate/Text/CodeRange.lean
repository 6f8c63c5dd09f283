namespace PageTemplate.Text

/-- Membership in an ascending list of inclusive ranges; the search ends at the first range that
starts past the code point. -/
def inRanges : List (Nat × Nat) → Nat → Bool
  | [], _ => false
  | (low, high) :: rest, n => if n < low then false else n ≤ high || inRanges rest n

end PageTemplate.Text
