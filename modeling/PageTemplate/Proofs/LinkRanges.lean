import Mathlib
import PageTemplate.Pagination

namespace PageTemplate.Pagination

/-- Links to just the pages that are wanted, each of them once and in ascending order. The number of
a page is the key to an entry with that number and the way to the page. -/
def LinksTo (links : Context) (href : Int64 → String) (wanted : Int64 → Prop) : Prop :=
  ∃ pages : List Int64, pages.Pairwise (· < ·) ∧ (∀ page, page ∈ pages ↔ wanted page) ∧
    links.entries = pages.map fun page =>
      (Text.decimal page, .container ⟨[("page", .int page), ("href", .str (href page))]⟩)

/-- Between bounds that words can reach, the numbers are those of exact integers. -/
theorem mem_numbersBelow {first past : Int} (hfirst : Int64.minValue.toInt ≤ first)
    (hpast : past ≤ Int64.maxValue.toInt + 1) {page : Int64} :
    page ∈ numbersBelow first past ↔ first ≤ page.toInt ∧ page.toInt < past := by
  constructor
  · intro h
    obtain ⟨i, hi, rfl⟩ := List.mem_map.1 h
    have hlt := List.mem_range.1 hi
    rw [toInt_of_mem_range hfirst hpast hi]
    omega
  · rintro ⟨hle, hlt⟩
    refine List.mem_map.2 ⟨(page.toInt - first).toNat, List.mem_range.2 (by omega), ?_⟩
    have hsum : first + ((page.toInt - first).toNat : Int) = page.toInt := by omega
    rw [hsum, Int64.ofInt_toInt]

/-- Links to a stretch of pages lead to the pages that are wanted, if these make up the stretch. -/
theorem linksTo_links {first past : Int} (hfirst : Int64.minValue.toInt ≤ first)
    (hpast : past ≤ Int64.maxValue.toInt + 1) (href : Int64 → String) {wanted : Int64 → Prop}
    (hwanted : ∀ page : Int64, first ≤ page.toInt ∧ page.toInt < past ↔ wanted page) :
    LinksTo (links (numbersBelow first past) href) href wanted := by
  refine ⟨numbersBelow first past, numbersBelow_sorted hfirst hpast, fun page => ?_, rfl⟩
  exact (mem_numbersBelow hfirst hpast).trans (hwanted page)

theorem size_links (first past : Int) (href : Int64 → String) :
    (links (numbersBelow first past) href).size = (past - first).toNat := by
  rw [links, Context.size, List.length_map, numbersBelow, List.length_map, List.length_range]

/-- A number that is not below the words is cut off at their upper end only. -/
theorem toInt_clampInt64_of_le {n : Int} (h : Int64.minValue.toInt ≤ n) :
    (clampInt64 n).toInt = min n Int64.maxValue.toInt := by
  have hmin : Int64.minValue.toInt ≤ Int64.maxValue.toInt := by decide
  rw [toInt_clampInt64]
  exact Int.max_eq_right (Int.le_min.2 ⟨h, hmin⟩)

section

variable {page : Int64} (hpage : 1 ≤ page) (count : Int64) (href : Int64 → String)

include hpage

/-- The first page wanted may lie beyond the words at either end, but never the page itself. -/
theorem pagesBefore_exact :
    (LinksTo (pagesBefore page count href) href fun other =>
      1 ≤ other ∧ other < page ∧ page.toInt - count.toInt ≤ other.toInt) ∧
    ((pagesBefore page count href).size : Int) ≤ max count.toInt 0 := by
  have hone : 1 ≤ page.toInt := Int64.le_iff_toInt_le.1 hpage
  have hmin : Int64.minValue.toInt = -9223372036854775808 := by decide
  have hmax : Int64.maxValue.toInt = 9223372036854775807 := by decide
  have hword := Int64.toInt_le page
  have hmany := Int64.toInt_le count
  have hclamp := @toInt_clampInt64_of_le (page.toInt - count.toInt) (by omega)
  constructor
  · apply linksTo_links
    · omega
    · omega
    · intro other
      have hother := Int64.toInt_le other
      have hbottom : 1 ≤ other ↔ 1 ≤ other.toInt := Int64.le_iff_toInt_le
      have htop : other < page ↔ other.toInt < page.toInt := Int64.lt_iff_toInt_lt
      rw [hbottom, htop]
      omega
  · rw [pagesBefore, size_links]
    omega

/-- The largest word has no successor, so no page after it is wanted. Its clamped successor is the
page itself, which the list does not reach if the last page or the count keeps it from doing so. -/
theorem pagesAfter_exact {last : Int64}
    (hroom : page < Int64.maxValue ∨ last < Int64.maxValue ∨ count < 0) :
    (LinksTo (pagesAfter page last count href) href fun other =>
      page < other ∧ other ≤ last ∧ other.toInt ≤ page.toInt + count.toInt) ∧
    ((pagesAfter page last count href).size : Int) ≤ max count.toInt 0 := by
  have hone : 1 ≤ page.toInt := Int64.le_iff_toInt_le.1 hpage
  have hmin : Int64.minValue.toInt = -9223372036854775808 := by decide
  have hmax : Int64.maxValue.toInt = 9223372036854775807 := by decide
  have hzero : (0 : Int64).toInt = 0 := by decide
  have hword := Int64.toInt_le page
  have hend := Int64.toInt_le last
  have hmany := Int64.le_toInt count
  have hnext := @toInt_clampInt64_of_le (page.toInt + 1) (by omega)
  have hclamp := @toInt_clampInt64_of_le (page.toInt + count.toInt) (by omega)
  rw [Int64.lt_iff_toInt_lt, Int64.lt_iff_toInt_lt, Int64.lt_iff_toInt_lt] at hroom
  constructor
  · apply linksTo_links
    · omega
    · omega
    · intro other
      have hother := Int64.toInt_le other
      have hbottom : page < other ↔ page.toInt < other.toInt := Int64.lt_iff_toInt_lt
      have htop : other ≤ last ↔ other.toInt ≤ last.toInt := Int64.le_iff_toInt_le
      rw [hbottom, htop]
      omega
  · rw [pagesAfter, size_links]
    omega

end

/-- The links before a page lead to the nearest pages before it, and those after it to the nearest
pages after it up to the last one, at most as many as are asked for. Left open are the links after
a page that is the last one and has the largest word for its number, unless fewer than none are
asked for. -/
theorem links_are_exact {page : Int64} (hpage : 1 ≤ page) (count : Int64)
    (href : Int64 → String) :
    (LinksTo (pagesBefore page count href) href fun other =>
      1 ≤ other ∧ other < page ∧ page.toInt - count.toInt ≤ other.toInt) ∧
    ((pagesBefore page count href).size : Int) ≤ max count.toInt 0 ∧
    ∀ last : Int64, (page < Int64.maxValue ∨ last < Int64.maxValue ∨ count < 0) →
      (LinksTo (pagesAfter page last count href) href fun other =>
        page < other ∧ other ≤ last ∧ other.toInt ≤ page.toInt + count.toInt) ∧
      ((pagesAfter page last count href).size : Int) ≤ max count.toInt 0 := by
  obtain ⟨hlinks, hsize⟩ := pagesBefore_exact hpage count href
  exact ⟨hlinks, hsize, fun last hroom => pagesAfter_exact hpage count href hroom⟩

/-- The last page but one has a link after it although the sum of the bounds is no word, and the
largest word has none if it is not the last page. -/
theorem links_are_exact_at_ends :
    (LinksTo (pagesAfter 9223372036854775806 Int64.maxValue Int64.maxValue Text.decimal)
      Text.decimal fun other => 9223372036854775806 < other ∧ other ≤ Int64.maxValue ∧
        other.toInt ≤ 9223372036854775806 + Int64.maxValue.toInt) ∧
    (pagesAfter Int64.maxValue 5 0 Text.decimal).size = 0 ∧
    (LinksTo (pagesBefore 1 Int64.minValue Text.decimal) Text.decimal fun other =>
      1 ≤ other ∧ other < 1 ∧ 1 - Int64.minValue.toInt ≤ other.toInt) := by
  obtain ⟨-, -, hafter⟩ := @links_are_exact 9223372036854775806 (by decide) Int64.maxValue
    Text.decimal
  obtain ⟨-, -, hnone⟩ := @links_are_exact Int64.maxValue (by decide) 0 Text.decimal
  obtain ⟨hbefore, -, -⟩ := @links_are_exact 1 (by decide) Int64.minValue Text.decimal
  have hsize := (hnone 5 (.inr (.inl (by decide)))).2
  have hcount : max (0 : Int64).toInt 0 = 0 := by decide
  rw [hcount] at hsize
  exact ⟨(hafter Int64.maxValue (.inl (by decide))).1, by omega, hbefore⟩

/-- The last page lists itself if its number is the largest word, even if no link is asked for. -/
theorem last_page_links_to_itself :
    let links := pagesAfter Int64.maxValue Int64.maxValue 0 Text.decimal
    1 ≤ Int64.maxValue ∧ links.names = ["9223372036854775807"] ∧
      ¬(links.size : Int) ≤ max (0 : Int64).toInt 0 ∧
      ¬LinksTo links Text.decimal fun other => Int64.maxValue < other ∧
        other ≤ Int64.maxValue ∧ other.toInt ≤ Int64.maxValue.toInt + (0 : Int64).toInt := by
  intro links
  have hnames : links.names = ["9223372036854775807"] := by decide +kernel
  have hsize : links.size = 1 := by decide +kernel
  refine ⟨by decide, hnames, by rw [hsize]; decide, ?_⟩
  rintro ⟨pages, -, hwanted, hentries⟩
  -- no page is wanted, but there is an entry
  have hnone : pages = [] := by
    refine List.eq_nil_iff_forall_not_mem.2 fun other hother => ?_
    obtain ⟨hlt, hle, -⟩ := (hwanted other).1 hother
    exact Int64.lt_irrefl (Int64.lt_of_lt_of_le hlt hle)
  rw [Context.size, hentries, hnone] at hsize
  cases hsize

end PageTemplate.Pagination
