import PageTemplate.Proofs.LossyText
import PageTemplate.Template

/-!
The key of a template says where its file lies under the root of the templates. The names on the way
to the file can be read off it as they are read as text, so two files have the same key only if they
are read alike.
-/

namespace PageTemplate

namespace Path

variable {path base : Path} {segments : List (List UInt8)}

theorem filter_dropWhile (segments : List (List UInt8)) :
    (segments.dropWhile fun s => !isNamed s).filter isNamed = segments.filter isNamed := by
  induction segments with
  | nil => rfl
  | cons segment rest ih =>
    by_cases hnamed : isNamed segment = true
    · rw [List.dropWhile_cons_of_neg (by simp [hnamed])]
    · rw [List.dropWhile_cons_of_pos (by simp [hnamed]), ih, List.filter_cons_of_neg hnamed]

theorem filter_dropTrailing (segments : List (List UInt8)) :
    (dropTrailing segments).filter isNamed = segments.filter isNamed := by
  rw [dropTrailing, List.filter_reverse, filter_dropWhile, List.filter_reverse,
    List.reverse_reverse]

theorem filter_dropNamed (count : Nat) (segments : List (List UInt8)) :
    (dropNamed count segments).filter isNamed = (segments.filter isNamed).drop count := by
  induction segments generalizing count with
  | nil => cases count <;> rfl
  | cons segment rest ih =>
    cases count with
    | zero => rfl
    | succ count =>
      rw [dropNamed]
      split
      · next hnamed =>
        rw [ih, List.filter_cons_of_pos hnamed, List.drop_succ_cons]
      · next hnamed =>
        rw [ih, List.filter_cons_of_neg hnamed]

theorem dropTrailing_subset (segments : List (List UInt8)) : dropTrailing segments ⊆ segments := by
  intro segment h
  exact List.mem_reverse.1 (List.dropWhile_subset _ (List.mem_reverse.1 h))

theorem dropNamed_subset (count : Nat) (segments : List (List UInt8)) :
    dropNamed count segments ⊆ segments := by
  induction segments generalizing count with
  | nil => cases count <;> exact fun _ h => h
  | cons segment rest ih =>
    cases count with
    | zero => exact fun _ h => h
    | succ count =>
      rw [dropNamed]
      split <;> exact fun _ h => List.mem_cons_of_mem segment (ih _ h)

theorem not_mem_of_mem_segments {segment : List UInt8} (h : segment ∈ path.segments) :
    slash ∉ segment :=
  Text.not_mem_of_mem_splitOn h

theorem body_subset (path : Path) : path.body ⊆ path.segments := by
  rw [body]
  split
  · exact fun _ h => h
  · exact fun _ h => List.mem_of_mem_tail h

/-- A path that begins with a name has nothing in front of it. -/
theorem lead_of_isNamed (h : ∀ first ∈ path.segments.head?, isNamed first = true) :
    path.lead = none := by
  rw [lead, if_neg, if_neg]
  · exact fun hdot => absurd (h _ hdot) (by decide)
  · exact fun hroot => absurd (h _ hroot.1) (by decide)

/-- Segments that begin with a name, if there are any, are read back from the path made of them. -/
theorem components_ofSegments (hslash : ∀ segment ∈ segments, slash ∉ segment)
    (hfirst : ∀ first ∈ segments.head?, isNamed first = true) :
    (ofSegments segments).components = (segments.filter isNamed).map component := by
  by_cases hnone : segments = []
  · subst hnone
    rfl
  · have hsegments : (ofSegments segments).segments = segments :=
      List.splitOn_intercalate slash hslash hnone
    have hlead : (ofSegments segments).lead = none := lead_of_isNamed (by rwa [hsegments])
    rw [components, body, if_pos hlead, hlead, hsegments]
    rfl

theorem lead_cases (path : Path) :
    path.lead = none ∨ path.lead = some .root ∨ path.lead = some .current := by
  rw [lead]
  split
  · exact .inr (.inl rfl)
  split
  · exact .inr (.inr rfl)
  · exact .inl rfl

theorem lead_ne_normal (path : Path) (name : List UInt8) : path.lead ≠ some (.normal name) := by
  rcases lead_cases path with h | h | h <;> rw [h] <;> simp

/-- A path that leads to the root or to a dot only begins there. -/
theorem lead_eq_none (hroot : .root ∉ path.components) (hcurrent : .current ∉ path.components) :
    path.lead = none := by
  have hmem {first : Component} (hfirst : path.lead = some first) : first ∈ path.components :=
    List.mem_append_left _ (Option.mem_toList.2 hfirst)
  rcases lead_cases path with h | h | h
  · exact h
  · exact absurd (hmem h) hroot
  · exact absurd (hmem h) hcurrent

structure IsName (name : List UInt8) : Prop where
  named : isNamed name = true
  down : name ≠ [dot, dot]
  whole : slash ∉ name

theorem isName_of_mem {name : List UInt8} (h : .normal name ∈ path.components) : IsName name := by
  rcases List.mem_append.1 h with hlead | hbody
  · exact absurd (Option.mem_toList.1 hlead) (lead_ne_normal path name)
  · obtain ⟨segment, hsegment, heq⟩ := List.mem_map.1 hbody
    obtain ⟨hmem, hnamed⟩ := List.mem_filter.1 hsegment
    rw [component] at heq
    split at heq
    · cases heq
    · next hdown =>
      obtain rfl := Component.normal.inj heq
      exact ⟨hnamed, hdown, not_mem_of_mem_segments (body_subset path hmem)⟩

theorem dropTrailing_prefix (segments : List (List UInt8)) :
    dropTrailing segments <+: segments := by
  have hsuffix := List.reverse_prefix.2
    (List.dropWhile_suffix (fun s => !isNamed s) : _ <:+ segments.reverse)
  rwa [List.reverse_reverse] at hsuffix

/-- A path without a lead begins with a name, unless it is empty. -/
theorem isNamed_head (hlead : path.lead = none) {first : List UInt8}
    (h : first ∈ (dropTrailing path.segments).head?) : isNamed first = true := by
  obtain ⟨trail, htrail⟩ := dropTrailing_prefix path.segments
  rw [lead] at hlead
  cases hsegments : dropTrailing path.segments with
  | nil =>
    rw [hsegments] at h
    cases h
  | cons segment rest =>
    rw [hsegments] at h htrail
    obtain rfl := Option.some.inj h
    rw [← htrail] at hlead hsegments
    -- an empty first segment or a dot would lead, and the path has no lead
    refine decide_eq_true ⟨fun hempty => ?_, fun hdot => ?_⟩
    · subst hempty
      rw [if_pos] at hlead
      · cases hlead
      · refine ⟨rfl, fun htail => ?_⟩
        obtain ⟨rfl, rfl⟩ := List.append_eq_nil_iff.1 htail
        exact absurd hsegments nofun
    · subst hdot
      rw [if_neg (by simp), if_pos (by simp)] at hlead
      cases hlead

theorem ofBody_none (segments : List (List UInt8)) :
    ofBody none segments = ofSegments segments := by
  cases segments <;> rfl

structure IsTrimmed (segments : List (List UInt8)) : Prop where
  whole : ∀ segment ∈ segments, slash ∉ segment
  first : ∀ first ∈ segments.head?, isNamed first = true
  last : ∀ last ∈ segments.getLast?, isNamed last = true

theorem isNamed_getLast {last : List UInt8} (h : last ∈ (dropTrailing segments).getLast?) :
    isNamed last = true := by
  have hnot := List.head?_dropWhile_not (fun s => !isNamed s) segments.reverse
  rw [dropTrailing, List.getLast?_reverse] at h
  rw [h] at hnot
  simpa using hnot

theorem mem_getLast?_of_dropWhile {α : Type} {p : α → Bool} {l : List α} {last : α}
    (h : last ∈ (l.dropWhile p).getLast?) : last ∈ l.getLast? := by
  obtain ⟨dropped, hdropped⟩ := List.dropWhile_suffix p (l := l)
  rw [← hdropped, List.getLast?_append, Option.mem_def.1 h]
  rfl

/-- What is left of a path behind a beginning begins and ends with a name. -/
theorem stripPrefix?_trimmed {names : List (List UInt8)}
    (h : path.components = base.components ++ names.map .normal) :
    ∃ segments, path.stripPrefix? base = some (ofSegments segments) ∧ IsTrimmed segments ∧
      (segments.filter isNamed).map component = names.map .normal := by
  have hslash : ∀ segment ∈ path.body, slash ∉ segment := fun segment hsegment =>
    not_mem_of_mem_segments (body_subset path hsegment)
  -- an empty base leaves what stands in front as it is
  by_cases hbase : base.components = []
  · rw [hbase, List.nil_append] at h
    have hlead : path.lead = none := lead_eq_none (h ▸ by simp) (h ▸ by simp)
    have hbody : path.body = path.segments := if_pos hlead
    refine ⟨dropTrailing path.body, ?_, ⟨?_, ?_, fun _ => isNamed_getLast⟩, ?_⟩
    · rw [stripPrefix?, if_pos hbase, hlead, ofBody_none]
    · exact fun segment hsegment => hslash segment (dropTrailing_subset _ hsegment)
    · exact fun first hfirst => isNamed_head hlead (hbody ▸ hfirst)
    · rw [filter_dropTrailing, ← h, components, hlead]
      rfl
  · have hprefix : base.components.isPrefixOf path.components = true :=
      List.isPrefixOf_iff_prefix.2 ⟨_, h.symm⟩
    refine ⟨_, (if_neg hbase).trans (if_pos hprefix), ⟨?_, ?_, ?_⟩, ?_⟩
    · intro segment hsegment
      exact hslash segment (dropNamed_subset _ _ (dropTrailing_subset _
        (List.dropWhile_subset _ hsegment)))
    · intro first hfirst
      have hnot := List.head?_dropWhile_not (fun s => !isNamed s)
        (dropTrailing (dropNamed (base.components.length - path.lead.toList.length) path.body))
      rw [hfirst] at hnot
      simpa using hnot
    · intro last hlast
      exact isNamed_getLast (mem_getLast?_of_dropWhile hlast)
    · have hlead : path.lead.toList.length ≤ base.components.length :=
        Nat.le_trans Option.length_toList_le (List.length_pos_iff.2 hbase)
      have hpath : path.components =
          path.lead.toList ++ (path.body.filter isNamed).map component := rfl
      have hrest := congrArg (List.drop base.components.length) h
      rw [hpath, List.drop_append, List.drop_eq_nil_of_le hlead, List.nil_append,
        List.drop_left] at hrest
      rw [filter_dropWhile, filter_dropTrailing, filter_dropNamed, List.map_drop, hrest]

theorem names_eq {names : List (List UInt8)} {rest : List Component}
    (h : path.components = names.map .normal ++ rest) (hrest : ∀ name, .normal name ∉ rest) :
    path.names = names := by
  have hnone : rest.filterMap Component.name? = [] := by
    refine List.filterMap_eq_nil_iff.2 fun component hmem => ?_
    cases component with
    | normal name => exact absurd hmem (hrest name)
    | _ => rfl
  have hsome : Component.name? ∘ Component.normal = some := rfl
  rw [Path.names, h, List.filterMap_append, List.filterMap_map, hsome, List.filterMap_some, hnone,
    List.append_nil]

theorem IsName.isWord_lossy {name : List UInt8} (h : IsName name) :
    Text.lossy name ≠ "" ∧ '/' ∉ (Text.lossy name).toList := by
  refine ⟨fun hempty => (of_decide_eq_true h.named).1 ?_, fun hmem => h.whole ?_⟩
  · exact Text.eq_of_lossy (s := "") (by simp) hempty
  · exact @Text.mem_of_mem_lossy slash (by decide) (by decide) _ hmem

def Component.read : Component → Component
  | .normal name => .normal (Text.bytes (Text.lossy name))
  | component => component

/-- No difference between the paths is left where their names are read as text. -/
def ReadAlike (a b : Path) : Prop :=
  a.components.map Component.read = b.components.map Component.read

def IsText (path : Path) : Prop := ∀ name, .normal name ∈ path.components → Text.IsText name

/-- The names in a path that is text are text. -/
theorem isText_of_bytes (h : Text.IsText path.bytes) : path.IsText := by
  intro name hname
  rcases List.mem_append.1 hname with hlead | hbody
  · exact absurd (Option.mem_toList.1 hlead) (lead_ne_normal path name)
  · obtain ⟨segment, hsegment, heq⟩ := List.mem_map.1 hbody
    have htext : Text.IsText segment := (Text.isText_splitOn (by decide)).1 h segment
      (body_subset path (List.mem_filter.1 hsegment).1)
    rw [component] at heq
    split at heq
    · cases heq
    · exact Component.normal.inj heq ▸ htext

theorem Component.read_eq_self {component : Component} : component.read = component ↔
    ∀ name, component = .normal name → Text.IsText name := by
  cases component with
  | normal name =>
    refine ⟨fun h other hother => ?_, fun h => congrArg Component.normal (h name rfl)⟩
    obtain rfl := Component.normal.inj hother
    exact Component.normal.inj h
  | _ => exact ⟨nofun, fun _ => rfl⟩

theorem map_read_eq_self {components : List Component} :
    components.map Component.read = components ↔
      ∀ component ∈ components, component.read = component := by
  conv_lhs => rhs; rw [← List.map_id components]
  exact List.map_inj_left

theorem IsText.map_read (h : path.IsText) :
    path.components.map Component.read = path.components :=
  map_read_eq_self.2 fun _ hmem =>
    Component.read_eq_self.2 fun name hname => h name (hname ▸ hmem)

theorem ReadAlike.components_eq {other : Path} (h : path.ReadAlike other) (hpath : path.IsText)
    (hother : other.IsText) : path.components = other.components := by
  rw [← hpath.map_read, ← hother.map_read]
  exact h

end Path

namespace Template

open PageTemplate.Path

example : key (.ofText "site/templates/") (.ofText "site//templates/./nav/top.html") =
    "nav/top.html" := by
  decide +kernel

end Template
end PageTemplate
