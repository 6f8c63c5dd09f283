import PageTemplate.PageMap
import PageTemplate.Proofs.TemplateKeys

namespace PageTemplate

namespace Path

variable {base path rel : Path} {dirs : List (List UInt8)} {name : List UInt8}

section Components

/-- What a path begins with counts for nothing else. -/
theorem components_eq (path : Path) :
    path.components = path.lead.toList ++ (path.segments.filter isNamed).map component := by
  rw [components, body]
  split
  · rfl
  · next hlead =>
    -- the segment that leads is not named, so the filter drops it anyway
    have hfirst : path.segments.head? = some [] ∨ path.segments.head? = some [dot] := by
      rw [lead] at hlead
      split at hlead
      · next hroot => exact .inl hroot.1
      split at hlead
      · next hdot => exact .inr hdot
      · exact absurd rfl hlead
    cases hsegments : path.segments with
    | nil => rfl
    | cons first rest =>
      rw [hsegments] at hfirst
      have hnamed : ¬isNamed first = true := by
        rcases hfirst with hempty | hdot
        · exact Option.some.inj hempty ▸ by decide
        · exact Option.some.inj hdot ▸ by decide
      rw [List.filter_cons_of_neg hnamed]
      rfl

/-- The beginning of a path is seen from its first segment, but for an empty one: there it matters
whether another one follows. -/
theorem lead_congr (h : path.segments.head? = base.segments.head?)
    (hempty : base.segments.head? = some [] → path.segments.tail ≠ [] ∧ base.segments.tail ≠ []) :
    path.lead = base.lead := by
  rw [lead, lead, h]
  by_cases hfirst : base.segments.head? = some []
  · rw [if_pos ⟨hfirst, (hempty hfirst).1⟩, if_pos ⟨hfirst, (hempty hfirst).2⟩]
  · rw [if_neg (mt And.left hfirst), if_neg (mt And.left hfirst)]

/-- Bytes behind a slash add their segments to those in front of it. -/
theorem components_append {front : List UInt8} {trail : List (List UInt8)} (hbase : base.bytes ≠ [])
    (hsegments : base.segments = front.splitOn slash ++ trail)
    (htrail : trail.filter isNamed = []) :
    (⟨front ++ slash :: path.bytes⟩ : Path).components =
      base.components ++ (path.segments.filter isNamed).map component := by
  have hjoined : (⟨front ++ slash :: path.bytes⟩ : Path).segments =
      front.splitOn slash ++ path.segments := List.splitOn_append_cons_self front path.bytes
  have hfront : front.splitOn slash ≠ [] := List.splitOn_ne_nil slash front
  -- a slash behind the base does not make it another kind of path, as the base is not empty
  have hlead : (⟨front ++ slash :: path.bytes⟩ : Path).lead = base.lead := by
    apply lead_congr
    · rw [hjoined, hsegments, List.head?_append_of_ne_nil _ hfront,
        List.head?_append_of_ne_nil _ hfront]
    · intro hempty
      refine ⟨fun hnone => ?_, fun hnone => hbase ?_⟩
      · rw [hjoined, List.tail_append_of_ne_nil hfront] at hnone
        exact List.splitOn_ne_nil slash path.bytes (List.append_eq_nil_iff.1 hnone).2
      · have hone : base.segments = [[]] := List.eq_cons_of_mem_head? hempty ▸ hnone ▸ rfl
        have hbytes : [slash].intercalate base.segments = base.bytes :=
          List.intercalate_splitOn slash
        rw [← hbytes, hone, List.intercalate_singleton]
  rw [components_eq, hlead, hjoined, List.filter_append, List.map_append, ← List.append_assoc,
    components_eq base, hsegments, List.filter_append, htrail, List.append_nil]

/-- A path behind another one leads through the components of both. -/
theorem join_components (base : Path) (h : path.lead = none) :
    (base.join path).components = base.components ++ path.components := by
  have hrelative : ¬path.isAbsolute = true := by
    rw [isAbsolute, h]
    decide
  have hpath : path.components = (path.segments.filter isNamed).map component := by
    rw [components_eq, h]
    rfl
  rw [join, if_neg hrelative]
  split
  · next hend =>
    rcases Bool.or_eq_true_iff.1 hend with hempty | hslash
    · have hbase : base = ⟨[]⟩ := congrArg Path.mk (List.isEmpty_iff.1 hempty)
      rw [hbase]
      rfl
    · -- the slash is there already, with an empty segment behind it
      obtain ⟨front, hfront⟩ := List.getLast?_eq_some_iff.1 (of_decide_eq_true hslash)
      have hsegments : base.segments = front.splitOn slash ++ [[]] := by
        rw [segments, hfront]
        exact List.splitOn_append_cons_self front []
      rw [hpath, hfront, List.append_assoc]
      exact components_append (by simp [hfront]) hsegments rfl
  · next hend =>
    rw [hpath]
    refine components_append (fun hempty => hend ?_) (List.append_nil _).symm rfl
    rw [hempty]
    rfl

end Components

section Names

theorem IsName.component_eq (h : IsName name) : component name = .normal name := if_neg h.down

theorem map_component_eq {segments names : List (List UInt8)}
    (h : segments.map component = names.map .normal) : segments = names := by
  induction segments generalizing names with
  | nil =>
    rw [List.map_nil, eq_comm, List.map_eq_nil_iff] at h
    exact h.symm
  | cons segment rest ih =>
    cases names with
    | nil => cases h
    | cons name names =>
      obtain ⟨hfirst, hrest⟩ := List.cons.inj h
      rw [component] at hfirst
      split at hfirst
      · cases hfirst
      · rw [Component.normal.inj hfirst, ih hrest]

/-- A path of names is its named segments. -/
theorem filter_segments {names : List (List UInt8)} (h : path.components = names.map .normal) :
    path.lead = none ∧ path.segments.filter isNamed = names ∧ ∀ name ∈ names, IsName name := by
  have hlead : path.lead = none := lead_eq_none (h ▸ by simp) (h ▸ by simp)
  refine ⟨hlead, ?_, fun name hname => isName_of_mem (h ▸ List.mem_map_of_mem hname)⟩
  rw [components_eq, hlead] at h
  exact map_component_eq h

theorem map_component {names : List (List UInt8)} (h : ∀ name ∈ names, IsName name) :
    names.map component = names.map .normal :=
  List.map_congr_left fun name hname => (h name hname).component_eq

/-- Names with slashes between them are the path that leads through them. -/
theorem components_ofNames {names : List (List UInt8)} (h : ∀ name ∈ names, IsName name) :
    (ofSegments names).components = names.map .normal := by
  have hread := components_ofSegments (fun name hname => (h name hname).whole)
    (fun name hname => (h name (List.mem_of_mem_head? hname)).named)
  rw [List.filter_eq_self.2 fun name hname => (h name hname).named, map_component h] at hread
  exact hread

/-- A name stays one when it is read as text, as dots and slashes stand for themselves. -/
theorem IsName.read (h : IsName name) : IsName (Text.bytes (Text.lossy name)) := by
  have hshort {s : String} (hs : ∀ c ∈ s.toList, 0 < c.toNat ∧ c.toNat < 0x80)
      (heq : Text.bytes (Text.lossy name) = Text.bytes s) : name = Text.bytes s :=
    Text.eq_of_lossy hs (Text.bytes_injective heq)
  have hempty : Text.bytes (Text.lossy name) ≠ [] := fun heq =>
    (of_decide_eq_true h.named).1 (@hshort "" (by simp) heq)
  have hdot : Text.bytes (Text.lossy name) ≠ [dot] := fun heq =>
    (of_decide_eq_true h.named).2 (@hshort "." (by simp) heq)
  refine ⟨decide_eq_true ⟨hempty, hdot⟩, fun heq => h.down (@hshort ".." (by simp) heq), ?_⟩
  exact fun hmem => h.isWord_lossy.2 (Text.mem_of_mem_bytes (by decide) hmem)

theorem isName_of_mem_names (h : name ∈ path.names) : IsName name := by
  obtain ⟨component, hmem, hname⟩ := List.mem_filterMap.1 h
  cases component with
  | normal other => exact Option.some.inj hname ▸ isName_of_mem hmem
  | _ => cases hname

/-- The names of a path, once they are text with slashes between them, are read back. -/
theorem join_slashed (base path : Path) : (base.join (.ofText path.slashed)).components =
    base.components ++ (path.names.map Component.normal).map Component.read := by
  have hread : (ofText path.slashed).components =
      (path.names.map fun name => Text.bytes (Text.lossy name)).map .normal := by
    rw [slashed, ofText, Text.bytes_intercalate, List.map_map]
    refine components_ofNames (List.forall_mem_map.2 fun name hname => ?_)
    exact (isName_of_mem_names hname).read
  rw [join_components _ (filter_segments hread).1, hread, List.map_map, List.map_map]
  rfl

end Names

section LastName

variable {new : List UInt8}

/-- What is put behind a stem keeps it from being dots alone. -/
theorem isName_append {front back : List UInt8} (hlong : 2 < back.length) (hfront : slash ∉ front)
    (hback : slash ∉ back) : IsName (front ++ back) := by
  have hne {short : List UInt8} (hshort : short.length ≤ 2) : front ++ back ≠ short := by
    intro heq
    have hlength := congrArg List.length heq
    rw [List.length_append] at hlength
    omega
  exact ⟨decide_eq_true ⟨hne (by decide), hne (by decide)⟩, hne (by decide),
    fun hmem => (List.mem_append.1 hmem).elim hfront hback⟩

theorem intercalate_concat {α : Type} (separator last : List α) {pieces : List (List α)}
    (h : pieces ≠ []) : separator.intercalate (pieces ++ [last]) =
      separator.intercalate pieces ++ separator ++ last := by
  induction pieces with
  | nil => exact absurd rfl h
  | cons piece pieces ih =>
    cases pieces with
    | nil => rw [List.singleton_append, List.intercalate_cons_cons, List.intercalate_singleton,
        List.intercalate_singleton]
    | cons second rest =>
      rw [List.cons_append, List.cons_append, List.intercalate_cons_cons, ← List.cons_append,
        ih (List.cons_ne_nil _ _), List.intercalate_cons_cons]
      simp only [List.append_assoc]

/-- A name is its stem, with or without an extension behind a dot. -/
theorem exists_extension (name : List UInt8) : (splitExtension name).1 = name ∨
    ∃ extension, name = (splitExtension name).1 ++ dot :: extension := by
  rw [splitExtension]
  split
  · next last first rest hpieces =>
    dsimp only
    split
    · exact .inl rfl
    · have hsplit : name.splitOn dot = (first :: rest).reverse ++ [last] := by
        rw [← List.reverse_reverse (name.splitOn dot), hpieces, List.reverse_cons]
      have hname : [dot].intercalate (name.splitOn dot) = name := List.intercalate_splitOn dot
      rw [hsplit, intercalate_concat _ _ (by simp), List.append_assoc,
        List.singleton_append] at hname
      exact .inr ⟨last, hname.symm⟩
  · exact .inl rfl

theorem mem_of_mem_stem {byte : UInt8} (h : byte ∈ (splitExtension name).1) : byte ∈ name := by
  rcases exists_extension name with hwhole | ⟨extension, hextension⟩
  · rwa [hwhole] at h
  · rw [hextension]
    exact List.mem_append_left _ h

/-- A dot is a place where text can be cut. -/
theorem isText_stem (h : Text.IsText name) : Text.IsText (splitExtension name).1 := by
  rcases exists_extension name with hwhole | ⟨extension, hextension⟩
  · rwa [hwhole]
  · rw [hextension] at h
    exact ((Text.isText_append_ascii (by decide)).1 h).1

/-- A path of names in front of the last one: there are its directories. -/
theorem exists_before (h : rel.components = (dirs ++ [name]).map .normal) :
    ∃ before, dropTrailing rel.body = before ++ [name] ∧ before.filter isNamed = dirs ∧
      (∀ first ∈ before.head?, isNamed first = true) ∧
      ∀ segment ∈ before, slash ∉ segment := by
  obtain ⟨hlead, hsegments, -⟩ := filter_segments h
  have hbody : rel.body = rel.segments := if_pos hlead
  have hfilter : (dropTrailing rel.segments).filter isNamed = dirs ++ [name] := by
    rw [filter_dropTrailing, hsegments]
  have hne : dropTrailing rel.segments ≠ [] := by
    intro hnone
    rw [hnone] at hfilter
    exact absurd hfilter (by simp)
  -- trailing segments without a name are cut off, so the last one left has a name
  have hlast : isNamed ((dropTrailing rel.segments).getLast hne) = true := by
    have hnot := List.head?_dropWhile_not (fun s => !isNamed s) rel.segments.reverse
    have hhead : (rel.segments.reverse.dropWhile fun s => !isNamed s).head? =
        some ((dropTrailing rel.segments).getLast hne) := by
      rw [← List.getLast?_reverse, ← List.getLast?_eq_some_getLast hne]
      rfl
    rw [hhead] at hnot
    simpa using hnot
  have hcut := List.dropLast_concat_getLast hne
  rw [← hcut, List.filter_append, List.filter_cons_of_pos hlast, List.filter_nil] at hfilter
  obtain ⟨hbefore, hname⟩ := List.append_inj' hfilter rfl
  rw [(List.cons.inj hname).1] at hcut
  refine ⟨(dropTrailing rel.segments).dropLast, hbody ▸ hcut.symm, hbefore, ?_, ?_⟩
  · intro first hfirst
    refine isNamed_head hlead ?_
    rw [← hcut, List.head?_append, Option.mem_def.1 hfirst]
    rfl
  · intro segment hsegment
    exact not_mem_of_mem_segments (dropTrailing_subset _ (List.dropLast_subset _ hsegment))

theorem getLast?_of_isTrimmed {segments : List (List UInt8)} (h : IsTrimmed segments)
    (hnames : (segments.filter isNamed).map component = (dirs ++ [name]).map .normal) :
    (ofSegments segments).body.getLast? = some name := by
  have hne : segments ≠ [] := by
    rintro rfl
    exact absurd hnames (by simp)
  have hcomponents := (components_ofSegments h.whole h.first).trans hnames
  have hbody : (ofSegments segments).body = segments :=
    (if_pos (filter_segments hcomponents).1).trans (List.splitOn_intercalate slash h.whole hne)
  obtain ⟨front, last, rfl⟩ := (List.eq_nil_or_concat' segments).resolve_left hne
  have hlast : isNamed last = true := h.last last (by simp)
  rw [List.filter_append, List.filter_cons_of_pos hlast, List.filter_nil] at hnames
  obtain ⟨-, hname⟩ := List.append_inj' (map_component_eq hnames) rfl
  rw [hbody, List.getLast?_concat, (List.cons.inj hname).1]

/-- Another name behind the same directories. -/
theorem components_withLast {before : List (List UInt8)} (hdirs : ∀ dir ∈ dirs, IsName dir)
    (hbefore : before.filter isNamed = dirs) (hhead : ∀ first ∈ before.head?, isNamed first = true)
    (hslash : ∀ segment ∈ before, slash ∉ segment) (hnamed : isNamed new = true)
    (hnew : slash ∉ new) :
    (ofBody none (before ++ [new])).components = dirs.map .normal ++ [component new] := by
  rw [ofBody_none, components_ofSegments, List.filter_append, List.filter_cons_of_pos hnamed,
    hbefore, List.map_append, map_component hdirs]
  · rfl
  · intro segment hsegment
    rcases List.mem_append.1 hsegment with hmem | hmem
    · exact hslash segment hmem
    · exact List.mem_singleton.1 hmem ▸ hnew
  · intro first hfirst
    rw [List.head?_append] at hfirst
    cases hempty : before.head? with
    | none =>
      rw [hempty] at hfirst
      exact Option.some.inj hfirst ▸ hnamed
    | some segment =>
      rw [hempty] at hfirst
      exact Option.some.inj hfirst ▸ hhead segment hempty

/-- The last name is the name of the file. -/
theorem fileName?_eq (h : rel.components = (dirs ++ [name]).map .normal) :
    rel.fileName? = some name := by
  rw [fileName?, h, List.map_append, List.map_singleton, List.getLast?_concat]
  rfl

def extended (stem extension : List UInt8) : Component :=
  if stem = [dot] then .parent else .normal (stem ++ dot :: extension)

/-- Only the last component changes with the extension. -/
theorem withExtension_components (h : rel.components = (dirs ++ [name]).map .normal)
    (hend : rel.body.getLast? = some name) (extension : List UInt8) (hlong : 1 < extension.length)
    (hslash : slash ∉ extension) :
    (rel.withExtension extension).components =
      dirs.map .normal ++ [extended (splitExtension name).1 extension] := by
  obtain ⟨hlead, -, hnames⟩ := filter_segments h
  obtain ⟨hdirs, hname⟩ := List.forall_mem_append.1 hnames
  obtain ⟨before, hcut, hbefore, hhead, hsegments⟩ := exists_before h
  have hstem : slash ∉ (splitExtension name).1 := fun hmem =>
    (hname name (List.mem_singleton_self name)).whole (mem_of_mem_stem hmem)
  rw [withExtension, fileName?_eq h, hlead, hcut, List.dropLast_concat, hend, extended]
  dsimp only
  split
  · next hdots =>
    -- a stem that is a dot: the two dots that are left take no extension
    rw [if_pos (of_decide_eq_true (Bool.and_eq_true_iff.1 hdots).1)]
    exact components_withLast hdirs hbefore hhead hsegments rfl (by decide)
  · next hdots =>
    rw [if_neg fun hdot => hdots (Bool.and_eq_true_iff.2 ⟨decide_eq_true hdot, by simp⟩)]
    have hnew : IsName ((splitExtension name).1 ++ dot :: extension) := by
      refine isName_append ?_ hstem ?_
      · rw [List.length_cons]
        omega
      · rw [List.mem_cons]
        exact not_or.2 ⟨by decide, hslash⟩
    rw [← hnew.component_eq]
    exact components_withLast hdirs hbefore hhead hsegments hnew.named hnew.whole

theorem withFileName_components (h : rel.components = (dirs ++ [name]).map .normal)
    (hnew : IsName new) :
    (rel.withFileName new).components = (dirs ++ [new]).map .normal := by
  obtain ⟨hlead, -, hnames⟩ := filter_segments h
  obtain ⟨hdirs, -⟩ := List.forall_mem_append.1 hnames
  obtain ⟨before, hcut, hbefore, hhead, hsegments⟩ := exists_before h
  have hparent : rel.parent? = some (ofBody none (dropTrailing before)) := by
    rw [parent?, h, List.map_append, List.map_singleton, List.getLast?_concat, hlead, hcut,
      List.dropLast_concat]
  have hdirectory : (ofBody none (dropTrailing before)).components = dirs.map .normal := by
    obtain ⟨trail, htrail⟩ := dropTrailing_prefix before
    rw [ofBody_none, components_ofSegments, filter_dropTrailing, hbefore, map_component hdirs]
    · exact fun segment hsegment => hsegments segment (dropTrailing_subset _ hsegment)
    · intro first hfirst
      refine hhead first ?_
      rw [← htrail, List.head?_append, Option.mem_def.1 hfirst]
      rfl
  have hfile : (⟨new⟩ : Path).components = [.normal new] := by
    have hone := components_ofNames (List.forall_mem_singleton.2 hnew)
    rwa [ofSegments, List.intercalate_singleton] at hone
  rw [withFileName, fileName?_eq h]
  dsimp only
  rw [hparent, Option.getD_some, join_components _ (@filter_segments ⟨new⟩ [new] hfile).1,
    hdirectory, hfile, List.map_append, List.map_singleton]

end LastName

end Path

namespace PageMap

variable {map : PageMap} {input rel : Path} {dirs : List (List UInt8)} {name : List UInt8}
  {page : Int64}

open PageTemplate.Path

def pageText (stem : String) (page : Int64) : String :=
  if page ≤ 1 then stem ++ ".html" else stem ++ "_" ++ Text.paddedDecimal 3 page ++ ".html"

def pageComponent (stem : List UInt8) (page : Int64) : Component :=
  if page ≤ 1 then extended stem (Text.bytes "html")
  else .normal (Text.bytes (pageText (Text.lossy stem) page))

theorem not_page_le_one (h : ¬page ≤ 1) : 0 < page.toInt := by
  have hlt := Int64.lt_iff_toInt_lt.1 (Int64.not_le.1 h)
  rw [show (1 : Int64).toInt = 1 by decide] at hlt
  omega

/-- Numbers are written in full, and page one has none. -/
theorem pageText_injective {stem : String} {i j : Int64} (hi : 1 ≤ i) (hj : 1 ≤ j)
    (h : pageText stem i = pageText stem j) : i = j := by
  -- behind the stem stands a dot on the first page and a low line on every other
  have hmark (number : String) : stem ++ ".html" ≠ stem ++ "_" ++ number ++ ".html" := by
    intro heq
    rw [String.append_assoc, String.append_assoc, String.append_right_inj] at heq
    have hletters := congrArg String.toList heq
    rw [String.toList_append] at hletters
    exact absurd (List.cons.inj hletters).1 (by decide)
  rw [pageText, pageText] at h
  split at h
  · next hone =>
    split at h
    · next hone' => exact Int64.le_antisymm (Int64.le_trans hone hj) (Int64.le_trans hone' hi)
    · exact absurd h (hmark _)
  · next hlater =>
    split at h
    · exact absurd h.symm (hmark _)
    · next hlater' =>
      rw [String.append_left_inj, String.append_right_inj] at h
      exact Text.paddedDecimal_injective (not_page_le_one hlater) (not_page_le_one hlater') h

theorem lossy_extended (stem : List UInt8) :
    Text.lossy (stem ++ dot :: Text.bytes "html") = Text.lossy stem ++ ".html" := by
  rw [Text.lossy_append_ascii (by decide), Text.lossy_bytes, String.append_assoc]
  rfl

/-- Read as text, the name of a page is that of a file whose stem is read before. -/
theorem pageComponent_read (stem : List UInt8) (page : Int64) :
    (pageComponent stem page).read = if page ≤ 1 ∧ stem = [dot] then .parent
      else .normal (Text.bytes (pageText (Text.lossy stem) page)) := by
  rw [pageComponent, extended, pageText]
  by_cases hfirst : page ≤ 1
  · rw [if_pos hfirst, if_pos hfirst]
    by_cases hdot : stem = [dot]
    · rw [if_pos hdot, if_pos ⟨hfirst, hdot⟩]
      rfl
    · rw [if_neg hdot, if_neg fun h => hdot h.2, Component.read, lossy_extended]
  · rw [if_neg hfirst, if_neg hfirst, if_neg fun h => hfirst h.1, Component.read, Text.lossy_bytes]

/-- By its name a page is told from the other pages of its file. -/
theorem pageComponent_injective {stem : List UInt8} {i j : Int64} (hi : 1 ≤ i) (hj : 1 ≤ j)
    (h : pageComponent stem i = pageComponent stem j) : i = j := by
  have hread := congrArg Component.read h
  rw [pageComponent_read, pageComponent_read] at hread
  split at hread
  · next hfirst =>
    split at hread
    · next hfirst' =>
      exact Int64.le_antisymm (Int64.le_trans hfirst.1 hj) (Int64.le_trans hfirst'.1 hi)
    · cases hread
  · split at hread
    · cases hread
    · exact pageText_injective hi hj (Text.bytes_injective (Component.normal.inj hread))

theorem pageName_components (h : rel.components = (dirs ++ [name]).map .normal)
    (hend : rel.body.getLast? = some name) (page : Int64) :
    (pageName rel page).components =
      dirs.map .normal ++ [pageComponent (splitExtension name).1 page] := by
  rw [pageName, pageComponent]
  split
  · exact withExtension_components h hend _ (by decide +kernel) (by decide +kernel)
  · next hlater =>
    obtain ⟨-, -, hnames⟩ := filter_segments h
    obtain ⟨-, hname⟩ := List.forall_mem_append.1 hnames
    have hstem : slash ∉
        Text.bytes (Text.lossy (splitExtension name).1 ++ "_" ++ Text.paddedDecimal 3 page) := by
      intro hmem
      have hchar := Text.mem_of_mem_bytes (by decide) hmem
      rw [String.toList_append, String.toList_append, List.mem_append, List.mem_append] at hchar
      -- no slash comes in with the stem as text, the underscore or the digits
      rcases hchar with (hmem | hmem) | hmem
      · have hbyte := mem_of_mem_stem (Text.mem_of_mem_lossy (by decide) (by decide) hmem)
        exact (hname name (List.mem_singleton_self name)).whole hbyte
      · exact absurd hmem (by decide)
      · exact absurd (Text.isDigit_of_mem_paddedDecimal (not_page_le_one hlater) hmem) (by decide)
    have hstem? : rel.stem?.getD [] = (splitExtension name).1 := by
      rw [stem?, fileName?_eq h]
      rfl
    have hnew : IsName (Text.bytes (Text.lossy (splitExtension name).1 ++ "_" ++
        Text.paddedDecimal 3 page) ++ Text.bytes ".html") :=
      isName_append (by decide +kernel) hstem (by decide +kernel)
    dsimp only
    rw [hstem?, pageText, if_neg hlater, Text.bytes_append, withFileName_components h hnew,
      List.map_append, List.map_singleton]

/-- The way to a page from the output root. -/
theorem relative_components
    (h : input.components = map.sourceRoot.components ++ (dirs ++ [name]).map .normal)
    (page : Int64) :
    (map.relative input page).components =
      dirs.map .normal ++ [pageComponent (splitExtension name).1 page] := by
  obtain ⟨segments, hrest, htrimmed, hnames⟩ := stripPrefix?_trimmed h
  rw [relative, hrest, Option.getD_some]
  exact pageName_components ((components_ofSegments htrimmed.whole htrimmed.first).trans hnames)
    (getLast?_of_isTrimmed htrimmed hnames) page

/-- The way to a page leads through the output root first. -/
theorem outputPath_components
    (h : input.components = map.sourceRoot.components ++ (dirs ++ [name]).map .normal)
    (page : Int64) :
    (map.outputPath input page).components =
      map.outputRoot.components ++ (map.relative input page).components := by
  have hrelative := relative_components h page
  refine join_components _ ?_
  rw [pageComponent, extended] at hrelative
  apply lead_eq_none <;> rw [hrelative] <;> split_ifs <;> simp

/-- No two pages of a file are written to the same place. -/
theorem outputPath_injective
    (h : input.components = map.sourceRoot.components ++ (dirs ++ [name]).map .normal)
    {i j : Int64} (hi : 1 ≤ i) (hj : 1 ≤ j)
    (heq : (map.outputPath input i).components = (map.outputPath input j).components) :
    i = j := by
  rw [outputPath_components h, outputPath_components h, relative_components h,
    relative_components h, List.append_cancel_left_eq, List.append_cancel_left_eq] at heq
  exact pageComponent_injective hi hj (List.cons.inj heq).1

/-- A path from the output root leads to where a page is written. -/
def Reaches (map : PageMap) (href : String) (page : Path) : Prop :=
  (map.outputRoot.join (.ofText href)).components = page.components

/-- Reading leaves the name of a page alone, unless it is the first page and its stem is no text or
a dot. -/
theorem isText_pageComponent {stem : List UInt8} (hdots : ¬(page ≤ 1 ∧ stem = [dot])) :
    (pageComponent stem page).read = pageComponent stem page ↔
      (page ≤ 1 → Text.IsText stem ∧ stem ≠ [dot]) := by
  rw [Component.read_eq_self, pageComponent, extended]
  by_cases hfirst : page ≤ 1
  · have hdot : stem ≠ [dot] := fun hdot => hdots ⟨hfirst, hdot⟩
    rw [if_pos hfirst, if_neg hdot]
    have hstem : Text.IsText (stem ++ dot :: Text.bytes "html") ↔ Text.IsText stem :=
      (Text.isText_append_ascii (by decide)).trans (and_iff_left (Text.isText_bytes _))
    refine ⟨fun h _ => ⟨hstem.1 (h _ rfl), hdot⟩, fun h name hname => ?_⟩
    obtain rfl := Component.normal.inj hname
    exact hstem.2 (h hfirst).1
  · rw [if_neg hfirst]
    refine ⟨fun _ h => absurd h hfirst, fun _ name hname => ?_⟩
    obtain rfl := Component.normal.inj hname
    exact Text.isText_bytes _

/-- A link leads to the place of its page just where the directories on the way are text and, for
the first page, the stem of the file is a text other than a dot. -/
theorem reaches_iff
    (h : input.components = map.sourceRoot.components ++ (dirs ++ [name]).map .normal) :
    map.Reaches (map.href input page) (map.outputPath input page) ↔
      (∀ dir ∈ dirs, Text.IsText dir) ∧
        (page ≤ 1 → Text.IsText (splitExtension name).1 ∧ (splitExtension name).1 ≠ [dot]) := by
  have hrelative := relative_components h page
  rw [Reaches, outputPath_components h, href, join_slashed, List.append_cancel_left_eq]
  by_cases hdots : page ≤ 1 ∧ (splitExtension name).1 = [dot]
  · have hparent : pageComponent (splitExtension name).1 page = .parent := by
      rw [pageComponent, if_pos hdots.1, extended, if_pos hdots.2]
    rw [hparent] at hrelative
    rw [names_eq hrelative (by simp), hrelative]
    refine ⟨fun heq => ?_, fun hstem => absurd hdots.2 (hstem.2 hdots.1).2⟩
    -- the link lacks the parent step that the page has
    have hlength := congrArg List.length heq
    simp at hlength
  · obtain ⟨file, hfile⟩ : ∃ file, pageComponent (splitExtension name).1 page = .normal file := by
      rw [pageComponent, extended]
      split_ifs with hfirst hdot
      · exact absurd ⟨hfirst, hdot⟩ hdots
      · exact ⟨_, rfl⟩
      · exact ⟨_, rfl⟩
    have hnames : (map.relative input page).components =
        (dirs ++ [file]).map .normal ++ [] := by
      rw [hrelative, hfile, List.map_append, List.map_singleton, List.append_nil]
    rw [names_eq hnames (fun _ => List.not_mem_nil), hnames, List.append_nil, map_read_eq_self,
      List.map_append, List.forall_mem_append, List.map_singleton, List.forall_mem_singleton,
      List.forall_mem_map, ← hfile, isText_pageComponent hdots]
    refine and_congr_left' (forall₂_congr fun dir hdir => ?_)
    exact Component.normal.injEq _ _ ▸ Iff.rfl

end PageMap
end PageTemplate
