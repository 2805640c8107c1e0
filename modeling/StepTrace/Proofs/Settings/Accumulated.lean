import StepTrace.Proofs.Settings.Lossless

/-!
# Exclusions that accumulate

Excluding tags adds those that were not there, each once and in the order in which they come, and
changes nothing else (`excludeAll_eq`).  It does not matter in how many rounds that is done
(`excludeAll_append`).  Saving settings leaves every directory and the working directory.
-/

namespace StepTrace.Settings

variable {s : Settings} {texts tags : List String}

/-! ## Excluding tags -/

/-- The tags that are not yet among the texts, each once. -/
def newTags (texts tags : List String) : List String :=
  (tags.filter (· ∉ texts)).eraseDups

theorem mem_append_newTags {tag : String} :
    tag ∈ texts ++ newTags texts tags ↔ tag ∈ texts ++ tags := by
  by_cases hmem : tag ∈ texts <;> simp [newTags, hmem]

theorem newTags_cons_of_mem {tag : String} (h : tag ∈ texts) :
    newTags texts (tag :: tags) = newTags texts tags := by
  simp [newTags, h]

theorem newTags_cons_of_not_mem {tag : String} (h : tag ∉ texts) :
    newTags texts (tag :: tags) = tag :: newTags (texts ++ [tag]) tags := by
  have hfilter : (tags.filter (· ∉ texts)).filter (!· == tag) =
      tags.filter (· ∉ texts ++ [tag]) := by
    rw [List.filter_filter]
    exact List.filter_congr fun other _ => by simp [Bool.and_comm, beq_eq_decide]
  rw [newTags, newTags, List.filter_cons_of_pos (by simpa using h), List.eraseDups_cons, hfilter]

theorem exclude_eq (h : s.excludedTags = texts.map .text) (tag : String) :
    s.exclude tag =
      { s with excludedTags := (if tag ∈ texts then texts else texts ++ [tag]).map .text } := by
  have hany : s.excludedTags.any (·.isText tag) = true ↔ tag ∈ texts := by
    simp [h, Value.isText_iff]
  unfold exclude
  by_cases hmem : tag ∈ texts
  · rw [if_pos (hany.mpr hmem), if_pos hmem, ← h]
  · rw [if_neg (mt hany.mp hmem), if_neg hmem, List.map_append, ← h]
    rfl

/-- Excluding tags adds the new ones behind the others. -/
theorem excludeAll_eq (h : s.excludedTags = texts.map .text) :
    s.excludeAll tags = { s with excludedTags := (texts ++ newTags texts tags).map .text } := by
  -- A tag that is added is one of the texts for the tags behind it.
  induction tags generalizing s texts with
  | nil => simp [excludeAll, newTags, ← h]
  | cons tag tags ih =>
      rw [show s.excludeAll (tag :: tags) = (s.exclude tag).excludeAll tags from rfl,
        exclude_eq h]
      by_cases hmem : tag ∈ texts
      · rw [if_pos hmem, ih rfl, newTags_cons_of_mem hmem]
      · rw [if_neg hmem, ih rfl, newTags_cons_of_not_mem hmem, List.append_assoc,
          List.singleton_append]

theorem excludeAll_append (s : Settings) (tags more : List String) :
    s.excludeAll (tags ++ more) = (s.excludeAll tags).excludeAll more :=
  List.foldl_append

theorem featuresDirectory_excludeAll (s : Settings) (tags : List String) :
    (s.excludeAll tags).featuresDirectory = s.featuresDirectory := by
  unfold excludeAll
  induction tags generalizing s with
  | nil => rfl
  | cons tag tags ih =>
      rw [List.foldl_cons, ih, exclude]
      split <;> rfl

theorem Textual.excludeAll (h : s.Textual) (tags : List String) : (s.excludeAll tags).Textual := by
  obtain ⟨texts, htexts⟩ := h.excludedTags
  rw [excludeAll_eq htexts]
  exact ⟨h.version, h.featuresDirectory, h.definitionsFile, ⟨_, rfl⟩, h.stepKeywords⟩

/-- Excluding tags that are excluded changes nothing. -/
theorem excludeAll_of_subset (h : s.excludedTags = texts.map .text) (hsubset : tags ⊆ texts) :
    s.excludeAll tags = s := by
  have hnew : newTags texts tags = [] := by
    rw [newTags, List.filter_eq_nil_iff.mpr fun tag htag => by simpa using hsubset htag]
    rfl
  rw [excludeAll_eq h, hnew, List.append_nil, ← h]

theorem textual_usual : ({} : Settings).Textual :=
  ⟨⟨_, rfl⟩, ⟨_, rfl⟩, ⟨_, rfl⟩, ⟨[], rfl⟩, ⟨_, rfl⟩⟩

/-! ## Directories around saved settings -/

section

variable {tree saved : FileTree} {root : Path}

theorem workingDirectory_save (h : s.save tree root = .ok saved) :
    saved.workingDirectory = tree.workingDirectory := by
  obtain ⟨made, hmade, hwritten⟩ := save_eq_ok.mp h
  rw [FileTree.workingDirectory_written hwritten,
    (FileTree.within_of_ensureDirectories hmade).workingDirectory]

theorem isDirectory_save {p : Path} (h : s.save tree root = .ok saved)
    (hp : tree.isDirectory p = true) : saved.isDirectory p = true := by
  obtain ⟨made, hmade, hwritten⟩ := save_eq_ok.mp h
  exact FileTree.isDirectory_written hwritten
    ((FileTree.within_of_ensureDirectories hmade).isDirectory hp)

/-- The settings file is followed through its directory, so no file is in the place of that. -/
theorem isFile_directory_of_resolve {names : List String}
    (h : tree.resolve (file root) = .ok names) : tree.isFile (directory root) = false := by
  obtain ⟨above, habove, hnode, -⟩ := FileTree.resolve_child_eq_ok.mp h
  by_contra hfile
  have hdirectory := FileTree.isDirectory_iff.mpr ⟨above, habove, hnode⟩
  rw [FileTree.isDirectory_eq_false_of_isFile ((Bool.not_eq_false _).mp hfile)] at hdirectory
  cases hdirectory

theorem isFile_directory_of_save (h : s.save tree root = .ok saved) :
    tree.isFile (directory root) = false := by
  obtain ⟨made, hmade, hwritten⟩ := save_eq_ok.mp h
  obtain ⟨names, hresolve, -⟩ := FileTree.writeText_eq_ok.mp hwritten
  have hfree := isFile_directory_of_resolve hresolve
  by_contra hfile
  rw [Bool.not_eq_false] at hfile
  rw [(FileTree.within_of_ensureDirectories hmade).isFile hfile] at hfree
  cases hfree

theorem isFile_directory_of_isSaved (h : isSaved tree root = true) :
    tree.isFile (directory root) = false := by
  cases hresolve : tree.resolve (file root) with
  | error fault => simp [isSaved, FileTree.exists?, FileTree.find?, hresolve] at h
  | ok names => exact isFile_directory_of_resolve hresolve

end

end StepTrace.Settings
