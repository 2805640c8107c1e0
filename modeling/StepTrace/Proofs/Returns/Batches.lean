import StepTrace.Proofs.Batch.Outcomes
import StepTrace.Proofs.Returns.Builds

/-!
# Batches of feature files that return

What stands in a feature file is a document, or no document, or no text at all.  The last is the one
fault that reading does not pass over (`readDocument_run`, `readDocument_undecodable`).

Since no document that was read is refused, a batch comes to its end unless it comes upon a file of
that kind; on its way it deals out the files to its features and to the files that it has skipped
(`build_returns`, `build_undecodable`).
-/

namespace StepTrace

open Store

/-! ## Reading a feature file -/

theorem FileTree.readText_error {tree : FileTree} {path : Path} {fault : Fault}
    (h : tree.readText path = .error fault) :
    fault = .undecodable ∨ ∃ fileFault, fault = .file fileFault := by
  unfold readText at h
  split at h
  · cases h
    exact Or.inr ⟨_, rfl⟩
  · split at h
    · cases h
      exact Or.inr ⟨_, rfl⟩
    · cases h
      exact Or.inr ⟨_, rfl⟩
    · cases h
      exact Or.inl rfl
    · cases h

theorem Gherkin.read_error {text : String} {fault : Fault} (h : Gherkin.read text = .error fault) :
    fault = .notGherkin := by
  unfold Gherkin.read at h
  split at h
  · cases h
  · cases h
    rfl

namespace Run

/-- What a feature file is read as. -/
def reading (tree : FileTree) (path : Path) : Except Fault Gherkin.Document :=
  tree.readText path >>= Gherkin.readFrom tree

/-- Reading the file comes upon bytes that are no text. -/
def Undecodable (tree : FileTree) (path : Path) : Prop :=
  reading tree path = .error .undecodable

instance (tree : FileTree) (path : Path) : Decidable (Undecodable tree path) :=
  decidable_of_iff ((match reading tree path with
    | .error .undecodable => true
    | _ => false) = true) (by
      unfold Undecodable
      split
      · rename_i h
        simp [h]
      · rename_i h
        simpa using h)

variable {tree : FileTree} {path : Path} {fault : Fault}

/-- The faults of reading: there is no file, or no text, or no document. -/
theorem reading_error (h : reading tree path = .error fault) :
    fault = .undecodable ∨ isUnusable fault = true := by
  have htext : ∀ {p : Path} {fault : Fault}, tree.readText p = .error fault →
      fault = .undecodable ∨ isUnusable fault = true := by
    intro p fault h
    rcases FileTree.readText_error h with rfl | ⟨f, rfl⟩
    · exact Or.inl rfl
    · exact Or.inr rfl
  have hdocument : ∀ {text : String} {fault : Fault}, Gherkin.read text = .error fault →
      fault = .undecodable ∨ isUnusable fault = true := by
    intro text fault h
    rw [Gherkin.read_error h]
    exact Or.inr rfl
  unfold reading at h
  cases hread : tree.readText path with
  | error f =>
      rw [hread] at h
      cases h
      exact htext hread
  | ok text =>
      rw [hread] at h
      change Gherkin.readFrom tree text = .error fault at h
      unfold Gherkin.readFrom at h
      split at h
      · rename_i p hp
        cases hread : tree.readText p with
        | error f =>
            rw [hread] at h
            cases h
            exact htext hread
        | ok text =>
            rw [hread] at h
            exact hdocument h
      · exact hdocument h

/-- The warning about a feature file that cannot be used. -/
def complaint? (tree : FileTree) (path : Path) : Option Warning :=
  match reading tree path with
  | .ok _ => none
  | .error fault => some (.unreadFile path.toString fault)

/-- **A file that holds a text is read, or passed over with a warning.** -/
theorem readDocument_run (h : ¬ Undecodable tree path) (w : Work) : (readDocument tree path).run w =
    (.ok (documentOf tree path),
      { w with warnings := w.warnings ++ (complaint? tree path).toList }) := by
  unfold readDocument documentOf complaint? reading
  cases hread : tree.readText path >>= Gherkin.readFrom tree with
  | ok document => simp; rfl
  | error fault =>
      rcases reading_error hread with rfl | hunusable
      · exact absurd hread h
      · dsimp only
        rw [if_pos hunusable]
        rfl

/-- **Reading a file that holds no text is refused.** -/
theorem readDocument_undecodable (h : Undecodable tree path) (w : Work) :
    (readDocument tree path).run w = (.error .undecodable, w) := by
  unfold Undecodable reading at h
  unfold readDocument
  rw [h]
  rfl

/-- What is read is a document that a feature text gives. -/
theorem documentOf_eq_some {content : Value} (h : documentOf tree path = some content) :
    ∃ d : Gherkin.Document, content = d.toValue := by
  unfold documentOf at h
  split at h
  · rename_i d _
    exact ⟨d, (Option.some.inj h).symm⟩
  · cases h

end Run

/-! ## Names of feature files -/

namespace Path

theorem name_suffix_toString {p : Path} (h : p.names ≠ []) : p.name.toList <:+ p.toString.toList := by
  have hjoined : ∀ names : List String, names ≠ [] →
      (names.getLast?.getD "").toList <:+ (String.intercalate "/" names).toList := by
    intro names
    induction names with
    | nil => exact fun h => absurd rfl h
    | cons name names ih =>
        intro _
        cases names with
        | nil => simp
        | cons next names =>
            rw [String.intercalate_cons_cons, List.getLast?_cons_cons, String.toList_append]
            exact (ih (List.cons_ne_nil _ _)).trans (List.suffix_append _ _)
  rw [toString, if_neg (fun hnone => h hnone.2), String.toList_append]
  exact (hjoined p.names h).trans (List.suffix_append _ _)

theorem featureEnding_toString {p : Path} (h : p.names ≠ [])
    (hname : FileTree.isFeatureName p.name = true) : FeatureEnding p.toString := by
  obtain ⟨stem, hstem⟩ := (List.isSuffixOf_iff_suffix.mp hname).trans (name_suffix_toString h)
  exact ⟨stem, hstem.symm⟩

/-- A suffix is what stands behind the last dot. -/
theorem isFeatureName_of_hasSuffix {p : Path} (h : p.hasSuffix "feature" = true) :
    FileTree.isFeatureName p.name = true := by
  rw [hasSuffix, Bool.and_eq_true, Bool.and_eq_true, decide_eq_true_eq, beq_iff_eq] at h
  obtain ⟨⟨hlength, -⟩, hsuffix⟩ := h
  set fromDot := p.name.toList.reverse.takeWhile (· != '.') with hfromDot
  have hsplit : p.name.toList.reverse = fromDot ++ p.name.toList.reverse.dropWhile (· != '.') :=
    List.takeWhile_append_dropWhile.symm
  have hreversed : fromDot.reverse = "feature".toList := by
    rw [← hsuffix, String.toList_ofList]
  rw [FileTree.isFeatureName, List.isSuffixOf_iff_suffix]
  cases hrest : p.name.toList.reverse.dropWhile (· != '.') with
  | nil =>
      -- without a dot it all stands behind the last one
      rw [hrest, List.append_nil] at hsplit
      have hsame := congrArg List.length hsplit
      rw [List.length_reverse, String.length_toList] at hsame
      omega
  | cons c rest =>
      have hdot : c = '.' := by
        have hhead := List.head?_dropWhile_not (· != '.') p.name.toList.reverse
        rw [hrest] at hhead
        simpa using hhead
      refine ⟨rest.reverse, ?_⟩
      rw [← List.reverse_reverse p.name.toList, hsplit, hrest, hdot, List.reverse_append, hreversed,
        List.reverse_cons]
      simp

end Path

namespace Run

variable {tree : FileTree} {root path : Path}

/-- The path by which a run knows a feature file. -/
def fileOf (tree : FileTree) (features path : Path) : Path :=
  Batch.knownAs (some (base tree features)) path

theorem isDirectory_eq {names : List String} (h : tree.resolve root = .ok names) :
    tree.isDirectory root = (tree.node? names == some .directory) := by
  rw [FileTree.isDirectory, FileTree.find?, h]

/-- A feature file lies below the directory from where it is seen. -/
theorem featureFiles_below (h : path ∈ tree.featureFiles root) :
    FileTree.isFeatureName path.name = true ∧ path.root = (base tree root).root ∧
      ∃ inside, inside ≠ [] ∧ path.names = (base tree root).names ++ inside := by
  unfold FileTree.featureFiles at h
  split at h
  · cases h
  · rename_i names hnames
    split at h
    · rename_i text hnode
      have hbase : base tree root = root.parent.parent := by
        rw [base, isDirectory_eq hnames, hnode, if_neg (by simp)]
      split at h
      · rename_i hsuffix
        obtain rfl := List.mem_singleton.mp h
        have hname := Path.isFeatureName_of_hasSuffix hsuffix
        have hne : path.names ≠ [] := by
          intro hnil
          rw [Path.name, hnil] at hname
          exact absurd hname (by decide)
        rw [hbase]
        -- the last two names: the file is seen from the directory above its own
        refine ⟨hname, rfl, path.names.drop (path.names.length - 2), ?_, ?_⟩
        · have hpos := List.length_pos_of_ne_nil hne
          exact List.ne_nil_of_length_pos (by rw [List.length_drop]; omega)
        · change path.names = path.names.dropLast.dropLast ++ _
          rw [List.dropLast_eq_take, List.dropLast_eq_take, List.take_take, List.length_take,
            show min (min (path.names.length - 1) path.names.length - 1) (path.names.length - 1) =
              path.names.length - 2 by omega, List.take_append_drop]
      · cases h
    · rename_i hnode
      have hbase : base tree root = root.parent := by
        rw [base, isDirectory_eq hnames, hnode, if_pos (by simp)]
      unfold FileTree.featuresBelow at h
      rw [List.mem_mergeSort, List.mem_filterMap] at h
      obtain ⟨⟨place, node⟩, -, hfound⟩ := h
      dsimp only at hfound
      split at hfound
      · split at hfound
        · rename_i hbelow
          obtain ⟨-, hname⟩ := Bool.and_eq_true_iff.mp hbelow
          set inside := place.drop names.length
          have hne : inside ≠ [] := by
            intro hnil
            rw [hnil] at hname
            exact absurd hname (by decide)
          cases hfound
          rw [hbase]
          -- the last name of the root, and the names below it
          refine ⟨?_, rfl, root.names.drop (root.names.length - 1) ++ inside,
            fun hnil => hne (List.append_eq_nil_iff.mp hnil).2, ?_⟩
          · rw [Path.name, List.getLast?_append_of_ne_nil _ hne]
            exact hname
          · change root.names ++ inside = root.names.dropLast ++ _
            rw [List.dropLast_eq_take, ← List.append_assoc, List.take_append_drop]
        · cases hfound
      · cases hfound
    · cases h

/-- It is known by its names from there on. -/
theorem fileOf_eq (h : path ∈ tree.featureFiles root) :
    fileOf tree root path = ⟨"", path.names.drop (base tree root).names.length⟩ := by
  obtain ⟨-, hroot, inside, -, hnames⟩ := featureFiles_below h
  unfold fileOf Batch.knownAs
  rw [Option.bind_some, Path.relativeTo?, if_pos]
  exact ⟨hroot, List.isPrefixOf_iff_prefix.mpr ⟨inside, hnames.symm⟩⟩

/-- **It is known by the name of a feature file.** -/
theorem fileOf_ending (h : path ∈ tree.featureFiles root) :
    FeatureEnding (fileOf tree root path).toString := by
  obtain ⟨hname, -, inside, hne, hnames⟩ := featureFiles_below h
  have hdrop : path.names.drop (base tree root).names.length = inside := by
    rw [hnames, List.drop_left]
  rw [fileOf_eq h, hdrop]
  refine Path.featureEnding_toString hne ?_
  rw [Path.name, hnames, List.getLast?_append_of_ne_nil _ hne] at hname
  exact hname

end Run

/-! ## Batches -/

namespace Batch

/-- The files are dealt out, in order, to the features of a batch, as `P` says, and to the files that
it has skipped. -/
inductive Dealt (P : Ref Feature → String → Prop) : List String → Batch → Prop
  | nil : Dealt P [] {}
  | cons {file : String} {files : List String} {batch : Batch} (result : Option (Ref Feature))
      (h : ∀ r ∈ result, P r file) (hrest : Dealt P files batch) :
      Dealt P (file :: files) (batch.record file result)

namespace Dealt

variable {P P' : Ref Feature → String → Prop} {files : List String} {batch : Batch}

theorem imp (hP : ∀ r file, P r file → P' r file) (h : Dealt P files batch) :
    Dealt P' files batch := by
  induction h with
  | nil => exact .nil
  | cons result hresult _ ih => exact .cons result (fun r hr => hP r _ (hresult r hr)) ih

/-- Each file is either that of a feature or skipped, as often as it is one of the files. -/
theorem perm {name : Ref Feature → String} (h : Dealt (fun r file => name r = file) files batch) :
    files.Perm (batch.features.map name ++ batch.skipped) := by
  induction h with
  | nil => exact .refl _
  | @cons file files batch result hresult _ ih =>
      cases result with
      | none => exact (ih.cons file).trans List.perm_middle.symm
      | some r =>
          obtain rfl := hresult r rfl
          exact ih.cons (name r)

/-- Both are in the order of the files. -/
theorem sublist {name : Ref Feature → String} (h : Dealt (fun r file => name r = file) files batch) :
    (batch.features.map name).Sublist files ∧ batch.skipped.Sublist files := by
  induction h with
  | nil => exact ⟨.refl _, .refl _⟩
  | @cons file files batch result hresult _ ih =>
      cases result with
      | none => exact ⟨ih.1.cons file, ih.2.cons_cons file⟩
      | some r =>
          obtain rfl := hresult r rfl
          exact ⟨ih.1.cons_cons _, ih.2.cons _⟩

end Dealt

variable {tree : FileTree} {settings : Settings} {base : Option Path} {path : Path}
variable {paths : List Path} {old : Store} {named : List (Ref Feature × String)} {w : Work}

/-- The file can be built if it can be read: its read-me file can be, and it is known by the name of
a feature file that is none of a tag. -/
structure Buildable (tree : FileTree) (base : Option Path) (path : Path) : Prop where
  readMe : (readMeOf tree path).Readable
  ending : FeatureEnding (knownAs base path).toString
  not_isTag : ¬ IsTag (knownAs base path).toString

/-- **A file that was read is built, or gives no feature.** -/
theorem buildRead_returns (hexcluded : settings.excluded = .ok (excludedBy settings))
    (hpath : Buildable tree base path) (hw : w.store.Receptive old named) :
    ∃ result w', (buildRead tree settings base ⟨path, Run.readDocument tree path⟩
        (Run.documentOf tree path)).run w = (.ok result, w') ∧
      w'.store.Receptive old (result.toList.map (·, (knownAs base path).toString) ++ named) ∧
        w'.warnings = w.warnings := by
  cases hdocument : Run.documentOf tree path with
  | none => exact ⟨none, w, rfl, hw, rfl⟩
  | some content =>
      obtain ⟨d, rfl⟩ := Run.documentOf_eq_some hdocument
      obtain ⟨result, s', hrun, hs'⟩ := Build.feature_returns d hpath.ending
        (hpath.ending.untagged hpath.not_isTag) (excludedBy settings) hpath.readMe hw
      rw [← buildDocument_eq hexcluded] at hrun
      refine ⟨result, { w with store := s' }, ?_, hs', rfl⟩
      change (buildOne tree settings (knownAs base path) path d.toValue).run w = _
      rw [buildOne_run, hrun]

/-- What a batch does with a file that holds a text. -/
theorem build_cons_returns (hexcluded : settings.excluded = .ok (excludedBy settings))
    (hpath : Buildable tree base path) (htext : ¬ Run.Undecodable tree path)
    (hw : w.store.Receptive old named) (sources : List Source) :
    ∃ result w', w'.store.Receptive old
        (result.toList.map (·, (knownAs base path).toString) ++ named) ∧
      w'.warnings = w.warnings ++ (Run.complaint? tree path).toList ∧
      (build tree settings base (⟨path, Run.readDocument tree path⟩ :: sources)).run w = (do
        let batch ← build tree settings base sources
        return batch.record (knownAs base path).toString result : Job Batch).run w' := by
  obtain ⟨result, w', hrun, hw', hwarnings⟩ := buildRead_returns
    (w := { w with warnings := w.warnings ++ (Run.complaint? tree path).toList }) hexcluded hpath hw
  refine ⟨result, w', hw', hwarnings, ?_⟩
  rw [build_cons_run (Run.readDocument_run htext w), Action.run_bind_ok hrun]

/-- The sources of some feature files. -/
def sourcesOf (tree : FileTree) (paths : List Path) : List Source :=
  paths.map fun path => ⟨path, Run.readDocument tree path⟩

/-- **A batch of files that hold texts comes to its end**, deals out its files, and warns of those
that cannot be used. -/
theorem build_returns (hexcluded : settings.excluded = .ok (excludedBy settings))
    (hpaths : ∀ path ∈ paths, Buildable tree base path)
    (htexts : ∀ path ∈ paths, ¬ Run.Undecodable tree path) (hw : w.store.Receptive old named) :
    ∃ batch w', (build tree settings base (sourcesOf tree paths)).run w = (.ok batch, w') ∧
      w'.store.Receptive old named ∧
      Dealt (fun r file => w'.store.Has (.feature r) ∧ (w'.store.get r).id = file)
        (paths.map fun path => (knownAs base path).toString) batch ∧
      w'.warnings = w.warnings ++ paths.filterMap (Run.complaint? tree) := by
  induction paths generalizing w named with
  | nil => exact ⟨{}, w, rfl, hw, .nil, (List.append_nil _).symm⟩
  | cons path paths ih =>
      obtain ⟨hpath, hpaths⟩ := List.forall_mem_cons.mp hpaths
      obtain ⟨htext, htexts⟩ := List.forall_mem_cons.mp htexts
      obtain ⟨result, w₁, hw₁, hwarnings₁, hrun₁⟩ :=
        build_cons_returns hexcluded hpath htext hw (sourcesOf tree paths)
      obtain ⟨batch, w', hrun, hw', hdealt, hwarnings⟩ := ih hpaths htexts hw₁
      refine ⟨batch.record (knownAs base path).toString result, w', ?_, ?_, ?_, ?_⟩
      · exact hrun₁.trans (Action.run_bind_ok hrun)
      · exact hw'.forget fun p hp => List.mem_append_right _ hp
      · refine .cons result (fun r hr => hw'.named (r, (knownAs base path).toString) ?_) hdealt
        exact List.mem_append_left _ (List.mem_map.mpr ⟨r, Option.mem_toList.mpr hr, rfl⟩)
      · rw [hwarnings, hwarnings₁, List.append_assoc]
        congr 1
        cases hcomplaint : Run.complaint? tree path with
        | none => rw [List.filterMap_cons_none hcomplaint]; rfl
        | some warning => rw [List.filterMap_cons_some hcomplaint]; rfl

/-- **A file that holds no text ends the batch.** -/
theorem build_undecodable (hexcluded : settings.excluded = .ok (excludedBy settings))
    (hpaths : ∀ path ∈ paths, Buildable tree base path)
    (hsome : ∃ path ∈ paths, Run.Undecodable tree path) (hw : w.store.Receptive old named) :
    ∃ w', (build tree settings base (sourcesOf tree paths)).run w = (.error .undecodable, w') := by
  induction paths generalizing w named with
  | nil =>
      obtain ⟨path, hpath, -⟩ := hsome
      cases hpath
  | cons path paths ih =>
      obtain ⟨hpath, hpaths⟩ := List.forall_mem_cons.mp hpaths
      by_cases hfirst : Run.Undecodable tree path
      · refine ⟨w, ?_⟩
        rw [sourcesOf, List.map_cons, build]
        exact Action.run_bind_error (Run.readDocument_undecodable hfirst w)
      · obtain ⟨bad, hbad, hundecodable⟩ := hsome
        have hlater : ∃ path ∈ paths, Run.Undecodable tree path := by
          rcases List.mem_cons.mp hbad with rfl | hbad
          · exact absurd hundecodable hfirst
          · exact ⟨bad, hbad, hundecodable⟩
        obtain ⟨result, w₁, hw₁, -, hrun₁⟩ :=
          build_cons_returns hexcluded hpath hfirst hw (sourcesOf tree paths)
        obtain ⟨w', hrun⟩ := ih hpaths hlater hw₁
        exact ⟨w', hrun₁.trans (Action.run_bind_error hrun)⟩

end Batch

end StepTrace
