namespace PageTemplate.Text

/-- The pieces between the separators; there is always one more piece than separators. -/
def split (separator : Char) (s : String) : List String :=
  (s.toList.splitOn separator).map String.ofList

end PageTemplate.Text
