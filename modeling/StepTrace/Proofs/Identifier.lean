import StepTrace.Assembly.Namespace
import StepTrace.Trace.Name

/-!
# Identifiers of what is registered

The identifiers of the parts of a feature document are its file name with labels behind it, one for
each level: `a.feature:scenario_2:step_1`.  No two parts may share one, within a document and across
documents, and none may be mistaken for a namespace or a tag.

Two facts carry this.

* **Across documents.**  Labels hold no dot and a file name ends in `.feature`, so the last dot of
  an identifier shows where the file name ends (`FeatureFile.eq_of_under`).
* **Within a document.**  Labels hold no colon, so two different labels behind one owner begin
  disjoint sets of identifiers (`eq_of_under_part`).
-/

namespace StepTrace

/-! ## What lies under an identifier -/

/-- The identifier of the part of `owner` that a label names. -/
def part (owner label : String) : String :=
  owner ++ ":" ++ label

/-- The identifier is `owner` or that of something below it. -/
def Under (owner id : String) : Prop :=
  ∃ rest : List Char, id.toList = owner.toList ++ rest ∧ '.' ∉ rest ∧
    (rest = [] ∨ ∃ more, rest = ':' :: more)

theorem Under.refl (owner : String) : Under owner owner :=
  ⟨[], by simp, by simp, Or.inl rfl⟩

theorem Under.trans {a b c : String} (hab : Under a b) (hbc : Under b c) : Under a c := by
  obtain ⟨rest, hb, hdot, hhead⟩ := hab
  obtain ⟨rest', hc, hdot', hhead'⟩ := hbc
  refine ⟨rest ++ rest', by rw [hc, hb, List.append_assoc], by simp [hdot, hdot'], ?_⟩
  rcases hhead with rfl | ⟨more, rfl⟩
  · simpa using hhead'
  · exact Or.inr ⟨more ++ rest', rfl⟩

/-- A label that can stand behind an identifier. -/
structure IsLabel (label : String) : Prop where
  dotless : '.' ∉ label.toList
  colonless : ':' ∉ label.toList

theorem under_part (owner : String) {label : String} (hlabel : IsLabel label) :
    Under owner (part owner label) := by
  refine ⟨':' :: label.toList, by simp [part], ?_, Or.inr ⟨_, rfl⟩⟩
  simpa using hlabel.dotless

theorem Under.of_part {owner label id : String} (hlabel : IsLabel label)
    (hid : Under (part owner label) id) : Under owner id :=
  (under_part owner hlabel).trans hid

theorem part_ne (owner label : String) : part owner label ≠ owner := by
  intro heq
  have hlength := congrArg (fun s => s.toList.length) heq
  simp [part] at hlength

/-- What lies under a part of `owner` is not `owner` itself. -/
theorem not_under_part_self (owner label : String) : ¬ Under (part owner label) owner := by
  rintro ⟨rest, heq, -⟩
  have hlength := congrArg List.length heq
  simp [part] at hlength

private theorem takeWhile_append_label {label rest : List Char} (hlabel : ':' ∉ label)
    (hrest : rest = [] ∨ ∃ more, rest = ':' :: more) :
    (label ++ rest).takeWhile (· != ':') = label := by
  have hall : ∀ c ∈ label, (c != ':') = true := by
    intro c hc
    simp only [bne_iff_ne, ne_eq]
    rintro rfl
    exact hlabel hc
  rw [List.takeWhile_append_of_pos hall]
  rcases hrest with rfl | ⟨more, rfl⟩ <;> simp

/-- **Different labels behind one owner begin disjoint sets of identifiers.** -/
theorem eq_of_under_part {owner label label' id : String} (hlabel : IsLabel label)
    (hlabel' : IsLabel label') (hid : Under (part owner label) id)
    (hid' : Under (part owner label') id) : label = label' := by
  obtain ⟨rest, heq, -, hrest⟩ := hid
  obtain ⟨rest', heq', -, hrest'⟩ := hid'
  have htail : label.toList ++ rest = label'.toList ++ rest' := by
    rw [heq] at heq'
    simpa [part] using heq'
  apply String.toList_injective
  rw [← takeWhile_append_label hlabel.colonless hrest, htail,
    takeWhile_append_label hlabel'.colonless hrest']

/-! ## The labels of parts -/

theorem isDigit_of_mem_toString {n : Nat} {c : Char} (hc : c ∈ (toString n).toList) :
    c.isDigit := by
  have hrepr : (toString n).toList = Nat.toDigits 10 n := Nat.toList_repr
  rw [hrepr] at hc
  exact Nat.isDigit_of_mem_toDigits (by decide) (by decide) hc

theorem toString_injective {m n : Nat} (h : toString m = toString n) : m = n := by
  have hdigits : Nat.toDigits 10 m = Nat.toDigits 10 n := by
    have := congrArg String.toList h
    simpa [Nat.toList_repr] using this
  have := congrArg (fun digits => Nat.ofDigitChars 10 digits 0) hdigits
  simpa using this

/-- A word with a number behind it. -/
theorem isLabel_numbered {word : String} (hword : IsLabel word) (n : Nat) :
    IsLabel (word ++ toString n) := by
  have hdigit : ∀ c, c.isDigit = false → c ∉ (toString n).toList := by
    intro c hc hmem
    rw [isDigit_of_mem_toString hmem] at hc
    cases hc
  constructor
  · simp only [String.toList_append, List.mem_append, not_or]
    exact ⟨hword.dotless, hdigit _ (by decide)⟩
  · simp only [String.toList_append, List.mem_append, not_or]
    exact ⟨hword.colonless, hdigit _ (by decide)⟩

theorem numbered_injective {word : String} {m n : Nat}
    (h : word ++ toString m = word ++ toString n) : m = n := by
  apply toString_injective
  apply String.toList_injective
  have := congrArg String.toList h
  simpa using this

/-- The label of a background. -/
def backgroundLabel : String := "background"

/-- The label of the `n`-th container of a feature, from 1. -/
def scenarioLabel (n : Nat) : String := "scenario_" ++ toString n

/-- The label of the `n`-th step of a container, from 1. -/
def stepLabel (n : Nat) : String := "step_" ++ toString n

/-- The label of the `n`-th examples table of an outline, from 0. -/
def examplesLabel (n : Nat) : String := "examples_" ++ toString n

/-- The label of the `n`-th row of an outline, from 1. -/
def rowLabel (n : Nat) : String := "example_" ++ toString n

theorem isLabel_background : IsLabel backgroundLabel :=
  ⟨by decide, by decide⟩

theorem isLabel_scenario (n : Nat) : IsLabel (scenarioLabel n) :=
  isLabel_numbered ⟨by decide, by decide⟩ n

theorem isLabel_step (n : Nat) : IsLabel (stepLabel n) :=
  isLabel_numbered ⟨by decide, by decide⟩ n

theorem isLabel_examples (n : Nat) : IsLabel (examplesLabel n) :=
  isLabel_numbered ⟨by decide, by decide⟩ n

theorem isLabel_row (n : Nat) : IsLabel (rowLabel n) :=
  isLabel_numbered ⟨by decide, by decide⟩ n

theorem scenarioLabel_injective {m n : Nat} (h : scenarioLabel m = scenarioLabel n) : m = n :=
  numbered_injective h

theorem stepLabel_injective {m n : Nat} (h : stepLabel m = stepLabel n) : m = n :=
  numbered_injective h

theorem examplesLabel_injective {m n : Nat} (h : examplesLabel m = examplesLabel n) : m = n :=
  numbered_injective h

theorem rowLabel_injective {m n : Nat} (h : rowLabel m = rowLabel n) : m = n :=
  numbered_injective h

/-- The next number is that of none so far. -/
theorem scenarioLabel_ne_next {i n : Nat} (h : i < n) :
    scenarioLabel (i + 1) ≠ scenarioLabel (n + 1) := by
  intro heq
  have := scenarioLabel_injective heq
  omega

theorem stepLabel_ne_next {i n : Nat} (h : i < n) : stepLabel (i + 1) ≠ stepLabel (n + 1) := by
  intro heq
  have := stepLabel_injective heq
  omega

theorem examplesLabel_ne_next {i n : Nat} (h : i < n) : examplesLabel i ≠ examplesLabel n := by
  intro heq
  have := examplesLabel_injective heq
  omega

theorem rowLabel_ne_next {i n : Nat} (h : i < n) : rowLabel (i + 1) ≠ rowLabel (n + 1) := by
  intro heq
  have := rowLabel_injective heq
  omega

theorem part_background (owner : String) : owner ++ ":background" = part owner backgroundLabel := by
  apply String.toList_injective
  simp [part, backgroundLabel]

theorem part_scenario (owner : String) (n : Nat) :
    owner ++ ":scenario_" ++ toString n = part owner (scenarioLabel n) := by
  apply String.toList_injective
  simp [part, scenarioLabel]

theorem part_step (owner : String) (n : Nat) :
    owner ++ ":step_" ++ toString n = part owner (stepLabel n) := by
  apply String.toList_injective
  simp [part, stepLabel]

theorem part_row (owner : String) (n : Nat) :
    owner ++ ":example_" ++ toString n = part owner (rowLabel n) := by
  apply String.toList_injective
  simp [part, rowLabel]

private theorem ne_of_getElem?_ne {s t : String} (i : Nat) (h : s.toList[i]? ≠ t.toList[i]?) :
    s ≠ t :=
  fun heq => h (by rw [heq])

theorem backgroundLabel_ne_scenarioLabel (n : Nat) : backgroundLabel ≠ scenarioLabel n :=
  ne_of_getElem?_ne 0 (by simp [backgroundLabel, scenarioLabel])

theorem stepLabel_ne_examplesLabel (m n : Nat) : stepLabel m ≠ examplesLabel n :=
  ne_of_getElem?_ne 0 (by simp [stepLabel, examplesLabel])

theorem stepLabel_ne_rowLabel (m n : Nat) : stepLabel m ≠ rowLabel n :=
  ne_of_getElem?_ne 0 (by simp [stepLabel, rowLabel])

theorem examplesLabel_ne_rowLabel (m n : Nat) : examplesLabel m ≠ rowLabel n :=
  ne_of_getElem?_ne 7 (by simp [examplesLabel, rowLabel])

/-! ## File names, namespaces and tags -/

/-- What every namespace identifier but that of the root begins with. -/
def rootPrefix : List Char := (rootNamespaceId ++ "/").toList

/-- What the identifiers of tags begin with. -/
def tagPrefix : List Char := "tag:".toList

/-- The identifier is that of a namespace. -/
def IsDirectory (id : String) : Prop :=
  id = rootNamespaceId ∨ rootPrefix <+: id.toList

/-- The identifier is that of a tag. -/
def IsTag (id : String) : Prop :=
  tagPrefix <+: id.toList

/-- The name of a feature file. -/
def FeatureEnding (file : String) : Prop :=
  ∃ stem : List Char, file.toList = stem ++ ".feature".toList

/-- The name of a feature file whose first directory is not called like the root namespace. -/
structure FeatureFile (file : String) : Prop where
  ending : FeatureEnding file
  outside : ¬ rootPrefix <+: file.toList

private theorem dropWhile_reverse_under {file id : String} {stem : List Char}
    (hfile : file.toList = stem ++ ".feature".toList) (hid : Under file id) :
    id.toList.reverse.dropWhile (· != '.') = '.' :: stem.reverse := by
  obtain ⟨rest, heq, hdot, -⟩ := hid
  have hrest : ∀ c ∈ rest.reverse, (c != '.') = true := by
    intro c hc
    simp only [bne_iff_ne, ne_eq]
    rintro rfl
    exact hdot (List.mem_reverse.mp hc)
  rw [heq, hfile, List.reverse_append, List.reverse_append, List.dropWhile_append_of_pos hrest]
  simp

/-- **The parts of different feature files have different identifiers.** -/
theorem FeatureEnding.eq_of_under {file file' id : String} (hfile : FeatureEnding file)
    (hfile' : FeatureEnding file') (hid : Under file id) (hid' : Under file' id) :
    file = file' := by
  obtain ⟨stem, hstem⟩ := hfile
  obtain ⟨stem', hstem'⟩ := hfile'
  have hsame := (dropWhile_reverse_under hstem hid).symm.trans
    (dropWhile_reverse_under hstem' hid')
  apply String.toList_injective
  rw [hstem, hstem', List.reverse_inj.mp (List.cons.inj hsame).2]

theorem FeatureFile.eq_of_under {file file' id : String} (hfile : FeatureFile file)
    (hfile' : FeatureFile file') (hid : Under file id) (hid' : Under file' id) : file = file' :=
  hfile.ending.eq_of_under hfile'.ending hid hid'

/-- What lies under the name of a feature file is not the root. -/
theorem FeatureEnding.ne_root {file id : String} (hfile : FeatureEnding file)
    (hid : Under file id) : id ≠ rootNamespaceId := by
  rintro rfl
  obtain ⟨stem, hstem⟩ := hfile
  obtain ⟨rest, heq, -, -⟩ := hid
  have hdot : '.' ∈ rootNamespaceId.toList := by
    rw [heq, hstem]
    simp
  exact absurd hdot (by decide)

/-- A text without a dot that begins an identifier under a file name begins the file name. -/
private theorem begins_file_of_begins {file id : String} {head : List Char}
    (hfile : FeatureEnding file) (hhead : '.' ∉ head)
    (hid : Under file id) (hbegins : head <+: id.toList) : head <+: file.toList := by
  obtain ⟨rest, heq, -, -⟩ := hid
  rw [heq] at hbegins
  rcases List.prefix_or_prefix_of_prefix hbegins (List.prefix_append _ _) with h | h
  · exact h
  · obtain ⟨stem, hstem⟩ := hfile
    refine absurd (h.subset ?_) hhead
    rw [hstem]
    simp

theorem FeatureFile.not_isDirectory {file id : String} (hfile : FeatureFile file)
    (hid : Under file id) : ¬ IsDirectory id := by
  rintro (hroot | hbegins)
  · exact hfile.ending.ne_root hid hroot
  · exact hfile.outside (begins_file_of_begins hfile.ending (by decide) hid hbegins)

theorem FeatureFile.not_isTag {file id : String} (hfile : FeatureFile file)
    (htag : ¬ IsTag file) (hid : Under file id) : ¬ IsTag id :=
  fun hbegins => htag (begins_file_of_begins hfile.ending (by decide) hid hbegins)

theorem isTag_tagId (token : String) : IsTag (tagId token) := by
  simp [IsTag, tagId, tagPrefix]

theorem tagId_injective {token token' : String} (h : tagId token = tagId token') :
    token = token' := by
  apply String.toList_injective
  have := congrArg String.toList h
  simpa [tagId] using this

theorem IsDirectory.not_isTag {id : String} (hid : IsDirectory id) : ¬ IsTag id := by
  rintro ⟨rest, hrest⟩
  rcases hid with rfl | ⟨rest', hrest'⟩
  · have := congrArg List.head? hrest
    revert this
    simp [tagPrefix, rootNamespaceId]
  · have := congrArg List.head? (hrest.trans hrest'.symm)
    revert this
    simp [tagPrefix, rootPrefix, rootNamespaceId]

end StepTrace
