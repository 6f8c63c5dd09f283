import Mathlib.Data.List.Nodup
import Mathlib.Data.Rat.Floor
import PageTemplate.Pagination

namespace PageTemplate.Pagination

/-- The items at the places from `first` on that lie before `past`, counted from zero. -/
def window {α : Type} (items : List α) (first past : Nat) : List α :=
  (items.take past).drop first

/-- The items at a page's own places, where every page has as many places. -/
def share {α : Type} (items : List α) (page perPage : Int) : List α :=
  (items.zipIdx.filter fun item => (page - 1) * perPage ≤ item.2 ∧ item.2 < page * perPage).map
    Prod.fst

def shown (items : List Context) : Context :=
  ⟨items.mapIdx fun i item => (Text.decimalNat i, .container item)⟩

/-- What the context of a page says: its number, the number of pages and its share. -/
structure Shows (contents : List Context) (page perPage : Int64) (known : Context) : Prop where
  names : known.names = ["curPage", "numPages", "content"]
  number : known.get? "curPage" = some (.int page)
  count : ∃ count : Int64, known.get? "numPages" = some (.int count) ∧
    count.toInt = ⌈(contents.length : ℚ) / perPage.toInt⌉
  content : known.get? "content" =
    some (.container (shown (share contents page.toInt perPage.toInt)))

def held (known : Context) : List Context :=
  match known.get? "content" with
  | some (.container content) => content.values.filterMap fun
    | .container item => some item
    | _ => none
  | _ => []

section Windows

variable {α : Type}

/-- A window shows what of its places there are items for. -/
theorem length_window (items : List α) (first past : Nat) :
    (window items first past).length = min past items.length - first := by
  rw [window, List.length_drop, List.length_take]

/-- Places are passed over one by one: each lies before the window, in it or behind it. -/
theorem filter_zipIdx (items : List α) (first past offset : Nat) :
    ((items.zipIdx offset).filter fun item => first ≤ item.2 ∧ item.2 < past).map Prod.fst =
      window items (first - offset) (past - offset) := by
  unfold window
  induction items generalizing offset with
  | nil => simp
  | cons item rest ih =>
    have hrest := ih (offset + 1)
    rw [List.zipIdx_cons]
    -- an item lies before the window, behind it or in it
    by_cases hbefore : offset < first
    · have hout : ¬(first ≤ offset ∧ offset < past) := by omega
      have hdrop : first - offset = first - (offset + 1) + 1 := by omega
      rw [List.filter_cons_of_neg (by simpa using hout), hrest, hdrop]
      by_cases hpast : past ≤ offset
      · have hnone : past - offset = 0 := by omega
        have hnone' : past - (offset + 1) = 0 := by omega
        rw [hnone, hnone', List.take_zero, List.take_zero, List.drop_nil, List.drop_nil]
      · have htake : past - offset = past - (offset + 1) + 1 := by omega
        rw [htake, List.take_succ_cons, List.drop_succ_cons]
    · have hdrop : first - offset = 0 := by omega
      have hdrop' : first - (offset + 1) = 0 := by omega
      rw [hdrop, List.drop_zero]
      rw [hdrop', List.drop_zero] at hrest
      by_cases hpast : past ≤ offset
      · have hout : ¬(first ≤ offset ∧ offset < past) := by omega
        have hnone : past - offset = 0 := by omega
        have hnone' : past - (offset + 1) = 0 := by omega
        rw [List.filter_cons_of_neg (by simpa using hout), hrest, hnone, hnone', List.take_zero,
          List.take_zero]
      · have hin : first ≤ offset ∧ offset < past := by omega
        have htake : past - offset = past - (offset + 1) + 1 := by omega
        rw [List.filter_cons_of_pos (by simpa using hin), List.map_cons, hrest, htake,
          List.take_succ_cons]

/-- A page's places are those from one product up to the next. -/
theorem share_eq (items : List α) {page : Nat} (hpage : 0 < page) (per : Nat) :
    share items page per = window items ((page - 1) * per) (page * per) := by
  have hplaces := filter_zipIdx items ((page - 1) * per) (page * per) 0
  rw [Nat.sub_zero, Nat.sub_zero] at hplaces
  rw [← hplaces, share]
  congr 1
  apply List.filter_congr
  intro item _
  have hfirst : (((page - 1) * per : Nat) : Int) = (page - 1) * per := by
    rw [Nat.cast_mul, Nat.cast_sub hpage, Nat.cast_one]
  have hpast : ((page * per : Nat) : Int) = page * per := Nat.cast_mul page per
  apply decide_eq_decide.2
  omega

/-- A window goes on where the items in front of it end. -/
theorem take_append_window (items : List α) {first past : Nat} (h : first ≤ past) :
    items.take first ++ window items first past = items.take past := by
  have hfront : items.take first = (items.take past).take first := by
    rw [List.take_take, Nat.min_eq_left h]
  rw [hfront, window, List.take_append_drop]

/-- Windows side by side make up the items before the end of the last one. -/
theorem flatMap_window (items : List α) (per count : Nat) :
    (List.range count).flatMap (fun k => window items (k * per) ((k + 1) * per)) =
      items.take (count * per) := by
  induction count with
  | zero => rw [Nat.zero_mul, List.take_zero, List.range_zero, List.flatMap_nil]
  | succ count ih =>
    have hle : count * per ≤ (count + 1) * per := Nat.mul_le_mul_right per (Nat.le_succ count)
    rw [List.range_succ, List.flatMap_append, ih, List.flatMap_singleton,
      take_append_window items hle]

end Windows

section Words

variable {α : Type} {page perPage : Int64}

theorem exists_nat_of_pos {n : Int64} (h : 0 < n) : ∃ value : Nat, n.toInt = value ∧ 0 < value := by
  have hpos : 0 < n.toInt := Int64.lt_iff_toInt_lt.1 h
  exact ⟨n.toInt.toNat, by omega, by omega⟩

/-- Words that end in the largest one lead to the same items as products without an end. -/
theorem pageItems_eq {items : List α} (hlength : (items.length : Int) ≤ Int64.maxValue.toInt)
    (hpage : 0 < page) :
    pageItems items page perPage = share items page.toInt perPage.toInt.toNat := by
  have hmax : Int64.maxValue.toInt = 9223372036854775807 := by decide
  have hsize : UInt64.size = 18446744073709551616 := rfl
  obtain ⟨number, hnumber, hone⟩ := exists_nat_of_pos hpage
  rw [hnumber, share_eq items hone, pageItems, pageBounds, hnumber, Int.toNat_natCast]
  generalize perPage.toInt.toNat = per
  have hnext : number * per = (number - 1) * per + per := by
    rw [← Nat.succ_mul, Nat.succ_eq_add_one, Nat.sub_add_cancel hone]
  rw [hnext]
  generalize (number - 1) * per = first
  unfold window clampCount
  dsimp only
  by_cases hfirst : first ≤ items.length
  · have hsame : min (min first (UInt64.size - 1)) items.length = first := by omega
    have hclip : min (min (first + per) (UInt64.size - 1)) items.length =
        min (first + per) items.length := by omega
    rw [hsame, hclip, List.take_eq_take_iff.2 (by omega : min (min (first + per) items.length)
      items.length = min (first + per) items.length)]
  · -- both windows begin behind the last item
    have hlast : min (min first (UInt64.size - 1)) items.length = items.length := by omega
    rw [hlast, List.drop_eq_nil_of_le (List.length_take_le' _ _),
      List.drop_eq_nil_of_le (by rw [List.length_take]; omega)]

/-- There are as many pages as it takes for all items to have a place, and none without an item. -/
theorem pageCount_spec (items : Nat) {per : Nat} (hword : perPage.toInt = per) (hper : 0 < per) :
    items ≤ pageCount items perPage * per ∧ pageCount items perPage * per < items + per := by
  have hcount : pageCount items perPage = (items + per - 1) / per := by
    rw [pageCount, hword, Int.toNat_natCast]
    exact if_neg (Nat.ne_of_gt hper)
  have hdiv := Nat.div_add_mod (items + per - 1) per
  have hmod := Nat.mod_lt (items + per - 1) hper
  rw [hcount, Nat.mul_comm]
  omega

/-- With room for one item at least, there are no more pages than items. -/
theorem pageCount_le (items : Nat) {per : Nat} (hword : perPage.toInt = per) (hper : 0 < per) :
    pageCount items perPage ≤ items := by
  obtain ⟨-, hunder⟩ := pageCount_spec items hword hper
  by_contra hmore
  have hproduct : (items + 1) * per ≤ pageCount items perPage * per :=
    Nat.mul_le_mul_right per (by omega)
  have hitems : items ≤ items * per := Nat.le_mul_of_pos_right items hper
  rw [Nat.succ_mul] at hproduct
  omega

/-- The number of pages is the quotient rounded up. -/
theorem pageCount_eq (items : Nat) {per : Nat} (hword : perPage.toInt = per) (hper : 0 < per) :
    (pageCount items perPage : Int) = ⌈(items : ℚ) / perPage.toInt⌉ := by
  obtain ⟨hover, hunder⟩ := pageCount_spec items hword hper
  have hperQ : (0 : ℚ) < per := Nat.cast_pos.2 hper
  rw [hword]
  symm
  rw [Int.ceil_eq_iff, Int.cast_natCast, Int.cast_natCast, lt_div_iff₀ hperQ, div_le_iff₀ hperQ]
  constructor
  · have hcast : (pageCount items perPage : ℚ) * per < items + per := by exact_mod_cast hunder
    linarith
  · exact_mod_cast hover

end Words

section Contexts

variable {contents : List Context} {page perPage : Int64} {known : Context}

/-- No two items of a page have the same number, so binding them keeps them all in order. -/
theorem numbered_eq (items : List Context) : numbered (items.map .container) = shown items := by
  have hkeys : (((items.map Value.container).mapIdx fun i value =>
      (Text.decimalNat i, value)).map Prod.fst) =
      (List.range items.length).map Text.decimalNat := by
    apply List.ext_getElem
    · simp
    · intro i hi hi'
      simp
  have hnodup : ((List.range items.length).map Text.decimalNat).Nodup :=
    List.Nodup.map (fun _ _ h => Text.decimalNat_injective h) List.nodup_range
  rw [numbered, Context.ofList_of_nodup (hkeys ▸ hnodup), shown]
  congr 1
  apply List.ext_getElem
  · simp
  · intro i hi hi'
    simp

/-- Every page number has a context. Beyond the last page its share is empty. -/
theorem exists_pageContext (hlength : (contents.length : Int) ≤ Int64.maxValue.toInt)
    (hpage : 0 < page) (hper : 0 < perPage) :
    ∃ known, pageContext contents page perPage = .ok known ∧ Shows contents page perPage known := by
  obtain ⟨per, hword, hone⟩ := exists_nat_of_pos hper
  have hitems : pageItems contents page perPage = share contents page.toInt perPage.toInt := by
    rw [pageItems_eq hlength hpage, hword, Int.toNat_natCast]
  -- there are no more pages than items, so their number is a word, too
  have hcount : (clampInt64 (pageCount contents.length perPage)).toInt =
      ⌈(contents.length : ℚ) / perPage.toInt⌉ := by
    have hle := pageCount_le contents.length hword hone
    have hmin : Int64.minValue.toInt ≤ 0 := by decide
    rw [← pageCount_eq contents.length hword hone, toInt_clampInt64]
    omega
  have hbound (number count content : Value) :
      Context.ofList [("curPage", number), ("numPages", count), ("content", content)] =
        ⟨[("curPage", number), ("numPages", count), ("content", content)]⟩ :=
    Context.ofList_of_nodup (by simp)
  refine ⟨⟨[("curPage", .int page),
    ("numPages", .int (clampInt64 (pageCount contents.length perPage))),
    ("content", .container (shown (share contents page.toInt perPage.toInt)))]⟩, ?_, ?_⟩
  · rw [pageContext, if_neg (Int64.not_le.2 hper), if_neg (Int64.not_le.2 hpage), hitems,
      numbered_eq, hbound]
  · exact ⟨rfl, rfl, ⟨_, rfl, hcount⟩, rfl⟩

/-- The items can be read off the context of their page. -/
theorem Shows.held_eq (h : Shows contents page perPage known) :
    held known = share contents page.toInt perPage.toInt := by
  have hvalues (items : List Context) : (shown items).values = items.map .container := by
    rw [shown, Context.values]
    apply List.ext_getElem
    · simp
    · intro i hi hi'
      simp
  rw [held, h.content]
  simp only [hvalues, List.filterMap_map]
  exact List.filterMap_some

/-- No page comes after as many pages as there are items, so the number of a page is a word. -/
theorem toInt_pageNumber {k items : Nat} (hk : k < items)
    (hlength : (items : Int) ≤ Int64.maxValue.toInt) : (Int64.ofInt (1 + k)).toInt = 1 + k := by
  have hmax : Int64.maxValue.toInt = 9223372036854775807 := by decide
  exact Int64.toInt_ofInt_of_le (by omega) (by omega)

/-- The pages in turn: each is shown with its own number. -/
theorem exists_pageContexts (hlength : (contents.length : Int) ≤ Int64.maxValue.toInt)
    (hper : 0 < perPage) :
    ∃ pages, pageContexts contents perPage = .ok pages ∧
      pages.length = pageCount contents.length perPage ∧
      ∀ k (hk : k < pages.length), Shows contents (Int64.ofInt (1 + k)) perPage pages[k] := by
  obtain ⟨per, hword, hone⟩ := exists_nat_of_pos hper
  have hle := pageCount_le contents.length hword hone
  generalize hcount : pageCount contents.length perPage = count at hle
  -- for any numbers of pages, so that the induction can drop the first
  have hall (ks : List Nat) (hks : ∀ k ∈ ks, k < count) :
      ∃ pages, (ks.map fun (i : Nat) => Int64.ofInt (1 + i)).mapM
          (fun page => pageContext contents page perPage) = .ok pages ∧
        List.Forall₂ (fun (k : Nat) known =>
          Shows contents (Int64.ofInt (1 + k)) perPage known) ks pages := by
    induction ks with
    | nil => exact ⟨[], rfl, .nil⟩
    | cons k ks ih =>
      obtain ⟨hk, hrest⟩ := List.forall_mem_cons.1 hks
      obtain ⟨pages, hpages, hshows⟩ := ih hrest
      have hvalue := toInt_pageNumber (by omega : k < contents.length) hlength
      have hpage : 0 < Int64.ofInt (1 + k) := Int64.lt_iff_toInt_lt.2 (by
        rw [hvalue, Int64.toInt_zero]
        omega)
      obtain ⟨known, hknown, hshow⟩ := exists_pageContext hlength hpage hper
      refine ⟨known :: pages, ?_, .cons hshow hshows⟩
      rw [List.map_cons, List.mapM_cons, hknown]
      simp only [bind, Except.bind, hpages]
      rfl
  obtain ⟨pages, hpages, hshows⟩ := hall (List.range count) fun k hk => List.mem_range.1 hk
  have hlen : count = pages.length := by
    rw [← hshows.length_eq, List.length_range]
  refine ⟨pages, ?_, hlen.symm, fun k hk => ?_⟩
  · rw [pageContexts, hcount, numbersBelow_one, hpages]
  · have hget := hshows.get (by rw [List.length_range]; omega) hk
    simpa using hget

/-- The places of a page, counted from zero. -/
theorem Shows.held_window {k per : Nat} (hk : k < contents.length)
    (hlength : (contents.length : Int) ≤ Int64.maxValue.toInt) (hword : perPage.toInt = per)
    (h : Shows contents (Int64.ofInt (1 + k)) perPage known) :
    held known = window contents (k * per) ((k + 1) * per) := by
  have hnumber : (Int64.ofInt (1 + k)).toInt = ((k + 1 : Nat) : Int) := by
    rw [toInt_pageNumber hk hlength]
    omega
  rw [h.held_eq, hnumber, hword, share_eq contents (by omega : 0 < k + 1), Nat.add_sub_cancel]

/-- Every page shows its share of the items, whatever its number and however many items a page
takes. The pages that there are show all items once and in order: each but the last has as many as a
page takes, and none is without an item. -/
theorem pages_partition_contents (contents : List Context) (perPage : Int64)
    (hlength : (contents.length : Int) ≤ Int64.maxValue.toInt) (hper : 0 < perPage) :
    (∀ page : Int64, 0 < page → ∃ known, pageContext contents page perPage = .ok known ∧
      Shows contents page perPage known) ∧
    ∃ pages, pageContexts contents perPage = .ok pages ∧
      (pages.length : Int) = ⌈(contents.length : ℚ) / perPage.toInt⌉ ∧
      pages.flatMap held = contents ∧
      ∀ k (hk : k < pages.length), Shows contents (Int64.ofInt (1 + k)) perPage pages[k] ∧
        held pages[k] ≠ [] ∧
        (k + 1 < pages.length → ((held pages[k]).length : Int) = perPage.toInt) := by
  refine ⟨fun page hpage => exists_pageContext hlength hpage hper, ?_⟩
  obtain ⟨per, hword, hone⟩ := exists_nat_of_pos hper
  obtain ⟨pages, hpages, hcount, hshows⟩ := exists_pageContexts hlength hper
  obtain ⟨hover, hunder⟩ := pageCount_spec contents.length hword hone
  have hle := pageCount_le contents.length hword hone
  rw [← hcount] at hover hunder hle
  have hheld (k : Nat) (hk : k < pages.length) :
      held pages[k] = window contents (k * per) ((k + 1) * per) :=
    (hshows k hk).held_window (by omega) hlength hword
  refine ⟨pages, hpages, ?_, ?_, fun k hk => ⟨hshows k hk, ?_, fun hmore => ?_⟩⟩
  · rw [hcount]
    exact pageCount_eq contents.length hword hone
  · have hmap : pages.map held =
        (List.range pages.length).map fun k => window contents (k * per) ((k + 1) * per) := by
      apply List.ext_getElem
      · simp
      · intro k hk hk'
        have hlt : k < pages.length := by simpa using hk
        simpa using hheld k hlt
    calc pages.flatMap held = (pages.map held).flatten := List.flatMap_def
      _ = contents.take (pages.length * per) := by
        rw [hmap, ← List.flatMap_def, flatMap_window]
      _ = contents := List.take_of_length_le hover
  · -- a page begins before the last item
    have hbefore : k * per + per ≤ pages.length * per := by
      rw [← Nat.succ_mul]
      exact Nat.mul_le_mul_right per hk
    have hsucc : (k + 1) * per = k * per + per := Nat.succ_mul k per
    intro hnone
    have hlen := congrArg List.length (hheld k hk)
    rw [hnone, length_window, List.length_nil] at hlen
    omega
  · have hbefore : k * per + per + per ≤ pages.length * per := by
      rw [← Nat.succ_mul, ← Nat.succ_mul]
      exact Nat.mul_le_mul_right per hmore
    have hsucc : (k + 1) * per = k * per + per := Nat.succ_mul k per
    rw [hheld k hk, length_window, hword]
    omega

def threeFiles : List Context :=
  [.ofList [("id", .int 1)], .ofList [("id", .int 2)], .ofList [("id", .int 3)]]

theorem pages_partition_threeFiles :
    (threeFiles.length : Int) ≤ Int64.maxValue.toInt ∧ (0 : Int64) < 2 ∧
      ∃ pages, pageContexts threeFiles 2 = .ok pages ∧ pages.length = 2 ∧
        pages.flatMap held = threeFiles := by
  have hlength : (threeFiles.length : Int) ≤ Int64.maxValue.toInt := by decide
  have hper : (0 : Int64) < 2 := by decide
  obtain ⟨-, pages, hpages, hcount, hall, -⟩ := pages_partition_contents threeFiles 2 hlength hper
  have hthree : threeFiles.length = 3 := rfl
  have htwo : (2 : Int64).toInt = 2 := by decide
  have hceil : ⌈((3 : Nat) : ℚ) / ((2 : Int) : ℚ)⌉ = 2 := by
    rw [Int.ceil_eq_iff]
    norm_num
  rw [hthree, htwo, hceil] at hcount
  exact ⟨hlength, hper, pages, hpages, by omega, hall⟩

end Contexts

end PageTemplate.Pagination
