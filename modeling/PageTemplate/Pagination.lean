import PageTemplate.Context
import PageTemplate.EvalError
import PageTemplate.Token.Lexer

namespace PageTemplate.Pagination

def pageCount (items : Nat) (perPage : Int64) : Nat :=
  let per := perPage.toInt.toNat
  if per = 0 then 0 else (items + per - 1) / per

/-- Counts are words of sixty-four bits; one that does not fit counts as the largest that does. -/
def clampCount (n : Nat) : Nat := min n (UInt64.size - 1)

/-- The places at which the items of a page begin and end, never past the last item. -/
def pageBounds (length : Nat) (page perPage : Int64) : Nat × Nat :=
  let per := perPage.toInt.toNat
  let first := min (clampCount ((page.toInt.toNat - 1) * per)) length
  (first, min (clampCount (first + per)) length)

def pageItems {α : Type} (items : List α) (page perPage : Int64) : List α :=
  let bounds := pageBounds items.length page perPage
  (items.take bounds.2).drop bounds.1

def numbered (values : List Value) : Context :=
  .ofList (values.mapIdx fun i value => (Text.decimalNat i, value))

def pageContext (contents : List Context) (page perPage : Int64) : Except ArgumentFault Context :=
  if perPage ≤ 0 then .error (.itemsPerPage perPage)
  else if page ≤ 0 then .error (.currentPage page)
  else .ok <| .ofList [
    ("curPage", .int page),
    ("numPages", .int (clampInt64 (pageCount contents.length perPage))),
    ("content", .container (numbered ((pageItems contents page perPage).map .container)))]

def numbersBelow (first past : Int) : List Int64 :=
  (List.range (past - first).toNat).map fun (i : Nat) => Int64.ofInt (first + i)

def pageContexts (contents : List Context) (perPage : Int64) :
    Except ArgumentFault (List Context) :=
  (numbersBelow 1 (pageCount contents.length perPage + 1)).mapM fun page =>
    pageContext contents page perPage

theorem numbersBelow_one (count : Nat) :
    numbersBelow 1 (count + 1) = (List.range count).map fun (i : Nat) => Int64.ofInt (1 + i) := by
  rw [numbersBelow]
  congr 2
  omega

/-- Numbers in the range of words are themselves. -/
theorem toInt_of_mem_range {first past : Int} (hfirst : Int64.minValue.toInt ≤ first)
    (hpast : past ≤ Int64.maxValue.toInt + 1) {i : Nat}
    (hi : i ∈ List.range (past - first).toNat) : (Int64.ofInt (first + i)).toInt = first + i := by
  have hlt := List.mem_range.1 hi
  have hmin : Int64.minValue.toInt ≤ first + i := by omega
  have hmax : first + i ≤ Int64.maxValue.toInt := by omega
  rw [← Int64.ofIntLE_eq_ofInt hmin hmax, Int64.toInt_ofIntLE]

/-- In the range of words the numbers ascend. -/
theorem numbersBelow_sorted {first past : Int} (hfirst : Int64.minValue.toInt ≤ first)
    (hpast : past ≤ Int64.maxValue.toInt + 1) : (numbersBelow first past).Pairwise (· < ·) := by
  refine List.pairwise_map.2 (List.Pairwise.imp_of_mem ?_ List.pairwise_lt_range)
  intro i j hi hj hlt
  rw [Int64.lt_iff_toInt_lt, toInt_of_mem_range hfirst hpast hi, toInt_of_mem_range hfirst hpast hj]
  omega

/-- No number in the range of words comes twice. -/
theorem numbersBelow_nodup {first past : Int} (hfirst : Int64.minValue.toInt ≤ first)
    (hpast : past ≤ Int64.maxValue.toInt + 1) : (numbersBelow first past).Nodup := by
  refine (numbersBelow_sorted hfirst hpast).imp fun hlt heq => ?_
  exact Int64.lt_irrefl (heq ▸ hlt)

def link (href : Int64 → String) (page : Int64) : String × Value :=
  (Text.decimal page, .container (.ofList [("page", .int page), ("href", .str (href page))]))

def links (pages : List Int64) (href : Int64 → String) : Context := ⟨pages.map (link href)⟩

/-- To bind the links one after the other comes to the same. -/
theorem links_eq_ofList {pages : List Int64} (h : pages.Nodup) (href : Int64 → String) :
    links pages href = .ofList (pages.map (link href)) := by
  refine (Context.ofList_of_nodup ?_).symm
  rw [List.map_map]
  exact List.pairwise_map.2 (h.imp fun hne heq => hne (Text.decimal_injective heq))

def pagesBefore (page count : Int64) (href : Int64 → String) : Context :=
  let first := max (clampInt64 (page.toInt - count.toInt)).toInt 1
  links (numbersBelow first page.toInt) href

/-- Links to the nearest pages after one, at most `count` of them and none past the last page. The
number after the largest one there is counts as that number itself. -/
def pagesAfter (page last count : Int64) (href : Int64 → String) : Context :=
  let first := (clampInt64 (page.toInt + 1)).toInt
  let final := min (clampInt64 (page.toInt + count.toInt)).toInt last.toInt
  links (numbersBelow first (final + 1)) href

structure Request where
  contentPath : String
  templateKey : String
  perPage : Int64
  deriving DecidableEq

namespace Request

def first? : List TokenKind → Option Request
  | .identifier "paginate" :: .symbol '(' :: .string content :: .symbol ',' :: .string template ::
      .symbol ',' :: .number perPage :: .symbol ')' :: _ => some ⟨content, template, perPage⟩
  | _ => none

def find? : List TokenKind → Option Request
  | [] => none
  | kind :: rest => first? (kind :: rest) <|> find? rest

/-- The first request in a document. Only the lines before the first fault are searched. -/
def scan? (source : String) : Option Request :=
  let tokens := Lexer.readableLines {} (Text.lines source.toList)
  find? ((tokens.map Token.kind).filter (· ≠ .endOfLine))

def pagesFor (request : Request) (items : Nat) : Nat := max (pageCount items request.perPage) 1

end Request
end PageTemplate.Pagination
