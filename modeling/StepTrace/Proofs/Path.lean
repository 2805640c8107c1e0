import StepTrace.Files.Path
import StepTrace.Proofs.Identifier

/-!
# Paths of feature files

A path as text is its root and its names with slashes between them, so its first name can be read
off.  Hence the name of a feature file cannot be mistaken for a namespace unless its first directory
is called like the root namespace (`FeaturePath.featureFile`), nor for a tag unless the first name
looks like one (`PlainPath.not_isTag`).
-/

namespace StepTrace

namespace Path

/-- The path is one that a text can write. -/
structure Proper (p : Path) : Prop where
  root : p.root = "" ∨ p.root = "/" ∨ p.root = "//"
  names : ∀ name ∈ p.names, '/' ∉ name.toList

private theorem not_mem_splitAt (sep : Char) (s : List Char) :
    ∀ piece ∈ Text.splitAt sep s, sep ∉ piece := by
  induction s with
  | nil => simp [Text.splitAt]
  | cons c s ih =>
      intro piece hpiece
      simp only [Text.splitAt] at hpiece
      split at hpiece
      · rename_i hnil
        exact absurd hnil (Text.splitAt_ne_nil sep s)
      · rename_i first rest hsplit
        rw [hsplit] at ih
        by_cases hc : c = sep
        · rw [if_pos hc] at hpiece
          rcases List.mem_cons.mp hpiece with rfl | hmem
          · exact List.not_mem_nil
          · exact ih piece hmem
        · rw [if_neg hc] at hpiece
          rcases List.mem_cons.mp hpiece with rfl | hmem
          · intro hsep
            rcases List.mem_cons.mp hsep with heq | hmem
            · exact hc heq.symm
            · exact ih first (List.mem_cons_self ..) hmem
          · exact ih piece (List.mem_cons_of_mem _ hmem)

/-- Every written path is proper. -/
theorem proper_ofString (s : String) : (ofString s).Proper where
  root := by
    simp only [ofString, rootOf]
    split
    · exact Or.inr (Or.inl rfl)
    · exact Or.inr (Or.inr rfl)
    · exact Or.inr (Or.inl rfl)
    · exact Or.inl rfl
  names := by
    intro name hname
    simp only [ofString, List.mem_map, List.mem_filter] at hname
    obtain ⟨piece, ⟨hpiece, -⟩, rfl⟩ := hname
    rw [String.toList_ofList]
    exact not_mem_splitAt '/' s.toList piece hpiece

/-- A relative path begins with its first name. -/
theorem toString_eq_first {p : Path} (hroot : p.root = "") {name : String} {names : List String}
    (hnames : p.names = name :: names) :
    ∃ rest : List Char, p.toString.toList = name.toList ++ rest ∧
      (rest = [] ∨ ∃ more, rest = '/' :: more) := by
  have htext : p.toString = String.intercalate "/" (name :: names) := by
    rw [toString, if_neg (by simp [hnames]), hroot, hnames, String.empty_append]
  cases names with
  | nil => exact ⟨[], by simp [htext], Or.inl rfl⟩
  | cons next names =>
      refine ⟨'/' :: (String.intercalate "/" (next :: names)).toList, ?_, Or.inr ⟨_, rfl⟩⟩
      rw [htext, String.intercalate_cons_cons]
      simp

/-- An absolute path begins with a slash. -/
theorem toString_absolute {p : Path} (hproper : p.Proper) (hroot : p.root ≠ "") :
    ∃ rest : List Char, p.toString.toList = '/' :: rest := by
  have htext : p.toString = p.root ++ String.intercalate "/" p.names := by
    rw [toString, if_neg (fun h => hroot h.1)]
  rcases hproper.root with h | h | h
  · exact absurd h hroot
  · exact ⟨(String.intercalate "/" p.names).toList, by rw [htext, h]; simp⟩
  · exact ⟨'/' :: (String.intercalate "/" p.names).toList, by rw [htext, h]; simp⟩

/-- What begins like neither an absolute path nor the empty one has a first name. -/
theorem exists_first {p : Path} (hproper : p.Proper) {head : List Char} (hempty : ¬ head <+: ['.'])
    (habsolute : ∀ rest, ¬ head <+: '/' :: rest) (hbegins : head <+: p.toString.toList) :
    p.root = "" ∧ ∃ (name : String) (rest : List Char), p.names.head? = some name ∧
      p.toString.toList = name.toList ++ rest ∧ (rest = [] ∨ ∃ more, rest = '/' :: more) := by
  by_cases hroot : p.root = ""
  · refine ⟨hroot, ?_⟩
    cases hnames : p.names with
    | nil =>
        rw [toString, if_pos ⟨hroot, hnames⟩] at hbegins
        exact absurd hbegins hempty
    | cons name names =>
        obtain ⟨rest, htext, hrest⟩ := toString_eq_first hroot hnames
        exact ⟨name, rest, rfl, htext, hrest⟩
  · obtain ⟨rest, htext⟩ := toString_absolute hproper hroot
    rw [htext] at hbegins
    exact absurd hbegins (habsolute rest)

end Path

/-- The path of a feature file whose first name is not that of the root namespace. -/
structure FeaturePath (p : Path) : Prop where
  proper : p.Proper
  ending : ".feature".toList <:+ p.toString.toList
  outside : p.root = "" → p.names.head? ≠ some rootNamespaceId

/-- The path of a feature file whose first name looks neither like the root namespace nor like a
tag. -/
structure PlainPath (p : Path) : Prop extends FeaturePath p where
  untagged : p.root = "" → ∀ name, p.names.head? = some name → ¬ tagPrefix <+: name.toList

theorem plainPath_ofString {s : String}
    (hending : ".feature".toList <:+ (Path.ofString s).toString.toList)
    (hfirst : ∀ name ∈ (Path.ofString s).names.head?,
      name ≠ rootNamespaceId ∧ ¬ tagPrefix <+: name.toList) : PlainPath (Path.ofString s) where
  proper := Path.proper_ofString s
  ending := hending
  outside _ hroot := (hfirst _ hroot).1 rfl
  untagged _ name hname := (hfirst name hname).2

/-- A text that holds no slash and begins a relative path begins its first name. -/
private theorem begins_first {head first rest : List Char} (hhead : '/' ∉ head)
    (hrest : rest = [] ∨ ∃ more, rest = '/' :: more) (hbegins : head <+: first ++ rest) :
    head <+: first := by
  rcases List.prefix_or_prefix_of_prefix hbegins (List.prefix_append _ _) with h | ⟨more, rfl⟩
  · exact h
  · rw [List.prefix_append_right_inj] at hbegins
    rcases hrest with rfl | ⟨tail, rfl⟩
    · obtain rfl := List.prefix_nil.mp hbegins
      simp
    · cases more with
      | nil => simp
      | cons c more =>
          have hc : c = '/' := (List.cons_prefix_cons.mp hbegins).1
          exact absurd (by simp [hc]) hhead

/-- **The name of a feature file is no identifier of a namespace.** -/
theorem FeaturePath.featureFile {p : Path} (h : FeaturePath p) : FeatureFile p.toString where
  ending := by
    obtain ⟨stem, hstem⟩ := h.ending
    exact ⟨stem, hstem.symm⟩
  outside := by
    intro hbegins
    obtain ⟨hroot, name, rest, hname, htext, hrest⟩ := Path.exists_first h.proper (by decide)
      (fun _ h => absurd (List.cons_prefix_cons.mp h).1 (by decide)) hbegins
    have hslash : '/' ∉ name.toList := h.proper.names name (List.mem_of_mem_head? hname)
    rw [htext] at hbegins
    -- the slash of the prefix ends the first name
    have hsame : name.toList = rootNamespaceId.toList := by
      have hroot' : rootPrefix = rootNamespaceId.toList ++ ['/'] := by decide
      rw [hroot'] at hbegins
      obtain ⟨tail, htail⟩ := begins_first (by decide) hrest
        ((List.prefix_append _ _).trans hbegins)
      rw [← htail, List.append_assoc, List.prefix_append_right_inj] at hbegins
      cases tail with
      | nil => rw [← htail, List.append_nil]
      | cons c tail =>
          have hc : '/' = c := (List.cons_prefix_cons.mp hbegins).1
          refine absurd ?_ hslash
          rw [← htail, ← hc]
          simp
    exact h.outside hroot (hname.trans (congrArg some (String.toList_injective hsame)))

/-- **Nor is it one of a tag, if its first name does not look like one.** -/
theorem PlainPath.not_isTag {p : Path} (h : PlainPath p) : ¬ IsTag p.toString := by
  intro hbegins
  obtain ⟨hroot, name, rest, hname, htext, hrest⟩ := Path.exists_first h.proper (by decide)
    (fun _ h => absurd (List.cons_prefix_cons.mp h).1 (by decide)) hbegins
  rw [IsTag, htext] at hbegins
  exact h.untagged hroot name hname (begins_first (by decide) hrest hbegins)

end StepTrace
