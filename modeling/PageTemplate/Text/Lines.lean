namespace PageTemplate.Text

def takeLine : List Char → List Char × List Char
  | [] => ([], [])
  | c :: rest =>
    if c = '\n' then ([c], rest)
    else ((c :: (takeLine rest).1), (takeLine rest).2)

theorem takeLine_append (cs : List Char) : (takeLine cs).1 ++ (takeLine cs).2 = cs := by
  fun_induction takeLine cs <;> simp_all

theorem length_takeLine_lt (c : Char) (rest : List Char) :
    (takeLine (c :: rest)).2.length < (c :: rest).length := by
  have h := congrArg List.length (takeLine_append (c :: rest))
  have hpos : 0 < (takeLine (c :: rest)).1.length := by
    rw [takeLine]; split <;> simp
  rw [List.length_append] at h
  omega

/-- The lines of a text; only the last may lack a newline, and an empty text has none. -/
def lines : List Char → List (List Char)
  | [] => []
  | c :: rest => (takeLine (c :: rest)).1 :: lines (takeLine (c :: rest)).2
termination_by cs => cs.length
decreasing_by exact length_takeLine_lt c rest

end PageTemplate.Text
