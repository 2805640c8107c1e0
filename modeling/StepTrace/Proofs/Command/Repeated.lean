import StepTrace.Proofs.Command.Reports
import StepTrace.Proofs.Settings.Accumulated

/-!
# Setting up a project again and again

Setting up a project loads its settings, excludes more tags in them, and saves them again, so the
exclusions pass through the file each time.  They only accumulate, and the file does not show in how
many rounds they came (`setUp_accumulates`).

The first round is different from the others: there may be no settings yet, and the directories may
have to be made.  Let `made` be the tree in which the features directory was made.  After every
round the tree is the one that saving the accumulated settings once in `made` gives (`SetUpFrom`).
One round preserves this (`SetUpFrom.round`), and all is read off from it.  Where there is no room
for one of the directories no round gets that far, and the settings stay as they were
(`Blocked.rounds`).
-/

namespace StepTrace.Command

open StepTrace.Action

variable {tree made saved : FileTree} {root features : Path} {s : Settings}
  {args tags texts : List String} {lines tagss : List (List String)}

/-! ## Command lines one after another -/

/-- How command lines end that are carried out one after another. -/
def outcomes : FileTree → List (List String) → List Outcome
  | _, [] => []
  | tree, args :: lines => run tree args :: outcomes (run tree args).console.tree lines

/-- The tree that command lines leave that are carried out one after another. -/
def treeAfter : FileTree → List (List String) → FileTree
  | tree, [] => tree
  | tree, args :: lines => treeAfter (run tree args).console.tree lines

/-- The command line sets up a project, and the tags are those that it excludes. -/
def SetsUp (args tags : List String) : Prop :=
  ofArguments? args = some (.setUp tags)

instance : Decidable (SetsUp args tags) :=
  inferInstanceAs (Decidable (ofArguments? args = some (.setUp tags)))

/-- A command line that sets up a project. -/
def setUpLine (tags : List String) : List String :=
  "init" :: tags.flatMap fun tag => ["--exclude-tag", tag]

/-- All tags can be excluded, whatever they look like. -/
theorem setsUp_setUpLine (tags : List String) : SetsUp (setUpLine tags) tags := by
  have hread : Arguments.read? ["--exclude-tag"]
      (tags.flatMap fun tag => ["--exclude-tag", tag]) =
        some { options := tags.map ("--exclude-tag", ·) } := by
    induction tags with
    | nil => rfl
    | cons tag tags ih =>
        rw [List.flatMap_cons]
        simp [Arguments.read?, ih, isOption, Arguments.splitOption, Arguments.give]
  have hvalues : Arguments.valuesOf { options := tags.map ("--exclude-tag", ·) } "--exclude-tag" =
      tags := by
    simp [Arguments.valuesOf, List.filter_map, Function.comp_def]
  have hcommand : ofName? "init" (tags.flatMap fun tag => ["--exclude-tag", tag]) =
      some (.setUp tags) := by
    simp [ofName?, optionsOf?, hread, Arguments.selection, hvalues]
  simp [SetsUp, setUpLine, ofArguments?, LeadingOption.readAll?, isOption, ofLeading?, optionsOf?,
    hcommand]

/-! ## One round -/

theorem run_changeTree_ok {change : FileTree → Except FileFault FileTree} {tree tree' : FileTree}
    (h : change tree = .ok tree') (lines : List String) :
    (changeTree change).run { tree, lines } = (.ok (), { tree := tree', lines }) := by
  unfold changeTree
  rw [run_bind_ok (run_tree _)]
  dsimp only
  rw [h]
  rfl

theorem run_changeTree_error {change : FileTree → Except FileFault FileTree} {fault : FileFault}
    (h : change tree = .error fault) (lines : List String) :
    (changeTree change).run { tree, lines } = (.error (.fault (.file fault)), { tree, lines }) := by
  unfold changeTree
  rw [run_bind_ok (run_tree _)]
  dsimp only
  rw [h]
  rfl

/-- A round finds the settings of the project, and the path of its features directory. -/
structure Round (tree : FileTree) (s : Settings) (features : Path) : Prop where
  load : Settings.loadOrUsual tree tree.workingDirectory = .ok s
  path : settingPath tree.workingDirectory s.featuresDirectory = .ok features

/-- Apart from what it prints, a round saves the project with the tags excluded. -/
theorem Round.run_setUp (h : Round tree s features) (tags : List String) :
    ∃ before behind, (perform (.setUp tags)).run { tree } =
      (do
        saveProject (s.excludeAll tags) tree.workingDirectory features
        print behind : Action Unit).run { tree, lines := before } := by
  have hpath : settingPath tree.workingDirectory (s.excludeAll tags).featuresDirectory =
      .ok features := by
    rw [Settings.featuresDirectory_excludeAll, h.path]
  have hload := h.load
  change ∃ before behind, (setUpProject tags).run { tree } = _
  unfold setUpProject
  rw [run_bind_ok (run_tree _)]
  dsimp only
  unfold Settings.loadOrUsual at hload
  split at hload
  · rename_i hsaved
    refine ⟨[alreadySetUp], ["Configuration updated. Existing feature files preserved."], ?_⟩
    rw [if_pos hsaved, run_bind_ok (run_print _ _), hload]
    change (check (settingPath _ (s.excludeAll tags).featuresDirectory) >>= _).run _ = _
    rw [hpath]
    rfl
  · rename_i hsaved
    cases hload
    refine ⟨[], ["Initialized featurelink project.", "  Created: " ++ features.toString ++ "/",
      "  Config:  " ++ (Settings.file tree.workingDirectory).toString], ?_⟩
    rw [if_neg hsaved, hpath]
    rfl

section

variable {command : Command} {c : Console} (hcommand : ofArguments? args = some command)
include hcommand

theorem run_of_ok (h : (perform command).run { tree } = (.ok (), c)) :
    run tree args = { exitCode := 0, console := c } := by
  simp only [run, hcommand, h]

theorem run_of_fault {fault : Fault}
    (h : (perform command).run { tree } = (.error (.fault fault), c)) :
    run tree args = { exitCode := 1, fault := some fault, console := c } := by
  simp only [run, hcommand, h]

end

section

variable (h : Round tree s features) (hline : SetsUp args tags)
include h hline

/-- A round stops if the features directory cannot be made. -/
theorem Round.stops_unmade {fault : FileFault}
    (hfault : tree.ensureDirectory features = .error fault) :
    (run tree args).exitCode = 1 ∧ (run tree args).console.tree = tree := by
  obtain ⟨before, behind, hperform⟩ := h.run_setUp tags
  rw [saveProject, bind_assoc, run_bind_error (run_changeTree_error hfault _)] at hperform
  rw [run_of_fault hline hperform]
  exact ⟨rfl, rfl⟩

/-- A round stops behind the features directory if the settings cannot be saved. -/
theorem Round.stops_unsaved {fault : FileFault} (hmade : tree.ensureDirectory features = .ok made)
    (hfault : (s.excludeAll tags).save made tree.workingDirectory = .error fault) :
    (run tree args).exitCode = 1 ∧ (run tree args).console.tree = made := by
  obtain ⟨before, behind, hperform⟩ := h.run_setUp tags
  rw [saveProject, bind_assoc, run_bind_ok (run_changeTree_ok hmade _),
    run_bind_error (run_changeTree_error hfault _)] at hperform
  rw [run_of_fault hline hperform]
  exact ⟨rfl, rfl⟩

theorem Round.completes (hmade : tree.ensureDirectory features = .ok made)
    (hsave : (s.excludeAll tags).save made tree.workingDirectory = .ok saved) :
    (run tree args).exitCode = 0 ∧ (run tree args).console.tree = saved := by
  obtain ⟨before, behind, hperform⟩ := h.run_setUp tags
  rw [saveProject, bind_assoc, run_bind_ok (run_changeTree_ok hmade _),
    run_bind_ok (run_changeTree_ok hsave _), run_print] at hperform
  rw [run_of_ok hline hperform]
  exact ⟨rfl, rfl⟩

end

/-! ## The rounds after the first -/

/-- The project has been set up: in a tree that has the features directory, the settings were
saved. -/
structure SetUpFrom (made : FileTree) (s : Settings) (tree : FileTree) : Prop where
  textual : s.Textual
  features : ∃ features, settingPath made.workingDirectory s.featuresDirectory = .ok features ∧
    made.isDirectory features = true
  saved : s.save made made.workingDirectory = .ok tree

/-- A round excludes its tags, and that is all. -/
theorem SetUpFrom.round (h : SetUpFrom made s tree) (hline : SetsUp args tags) :
    (run tree args).exitCode = 0 ∧
      SetUpFrom made (s.excludeAll tags) (run tree args).console.tree := by
  obtain ⟨features, hpath, hfeatures⟩ := h.features
  have hroot := Settings.workingDirectory_save h.saved
  have hround : Round tree s features :=
    ⟨hroot ▸ (h.textual.savedIn h.saved).loadOrUsual, hroot ▸ hpath⟩
  have hthere : tree.ensureDirectory features = .ok tree :=
    FileTree.ensureDirectory_of_directory (Settings.isDirectory_save h.saved hfeatures)
  -- What this round saves over the last settings could have been saved in `made` at once.
  obtain ⟨anew, hanew, hfirst⟩ := Settings.save_over h.saved (s.excludeAll tags)
  rw [← hroot] at hanew
  obtain ⟨hexit, htree⟩ := hround.completes hline hthere hanew
  refine ⟨hexit, h.textual.excludeAll tags, ⟨features, ?_, hfeatures⟩, htree ▸ hfirst⟩
  rw [Settings.featuresDirectory_excludeAll, hpath]

/-- However many rounds there are, all their tags are excluded in the end. -/
theorem SetUpFrom.rounds (h : SetUpFrom made s tree) (hlines : List.Forall₂ SetsUp lines tagss) :
    (∀ outcome ∈ outcomes tree lines, outcome.exitCode = 0) ∧
      SetUpFrom made (s.excludeAll tagss.flatten) (treeAfter tree lines) := by
  -- Each round starts with the settings and the tree that the one before left; `made` stays.
  induction hlines generalizing s tree with
  | nil => exact ⟨nofun, h⟩
  | cons hline _ ih =>
      obtain ⟨hexit, hafter⟩ := h.round hline
      obtain ⟨hexits, hlast⟩ := ih hafter
      rw [List.flatten_cons, Settings.excludeAll_append]
      exact ⟨List.forall_mem_cons.mpr ⟨hexit, hexits⟩, hlast⟩

/-! ## Where a project can be set up -/

/-- A project directory without settings, or with settings that were saved. -/
structure Startable (tree : FileTree) (s : Settings) : Prop where
  rooted : tree.Rooted
  directory : tree.isDirectory tree.workingDirectory = true
  textual : s.Textual
  settings : Settings.isSaved tree tree.workingDirectory = false ∧ s = {} ∨
    tree.readText (Settings.file tree.workingDirectory) = .ok s.write

/-- The features directory is there or can be made, and no file stands where the directory of the
project should be. -/
structure HasRoom (tree : FileTree) (s : Settings) : Prop where
  features : ∃ features made, settingPath tree.workingDirectory s.featuresDirectory = .ok features ∧
    tree.ensureDirectory features = .ok made
  directory : tree.isFile (Settings.directory tree.workingDirectory) = false

theorem Startable.loadOrUsual (h : Startable tree s) :
    Settings.loadOrUsual tree tree.workingDirectory = .ok s := by
  rcases h.settings with ⟨hsaved, rfl⟩ | htext
  · rw [Settings.loadOrUsual, hsaved]
    rfl
  · rw [Settings.loadOrUsual, if_pos (Settings.isSaved_of_readText htext),
      Settings.load_of_readText htext, h.textual.read_write]

theorem Startable.exists_round (h : Startable tree s) : ∃ features, Round tree s features := by
  obtain ⟨text, htext⟩ := h.textual.featuresDirectory
  exact ⟨_, h.loadOrUsual, by rw [htext]; rfl⟩

/-- Making the features directory puts no directory in the place of the settings file. -/
theorem Startable.isDirectory_file (h : Startable tree s) (hround : Round tree s features)
    (hmade : tree.ensureDirectory features = .ok made) :
    made.isDirectory (Settings.file tree.workingDirectory) = false := by
  rcases h.settings with ⟨hsaved, rfl⟩ | htext
  · -- Without settings the features directory is one next to the directory of the project.
    obtain rfl : tree.workingDirectory.child "features" = features := Except.ok.inj hround.path
    obtain ⟨there, hthere, hnode⟩ := FileTree.isDirectory_iff.mp h.directory
    have hchild (name : String) (hname : name ≠ "..") :
        tree.resolve (tree.workingDirectory.child name) = .ok (there ++ [name]) :=
      FileTree.resolve_child_eq_ok.mpr ⟨there, hthere, hnode, by simp [FileTree.stepInto, hname]⟩
    have hothers {other : List String} (hother : other ≠ there ++ ["features"]) :
        made.node? other = tree.node? other :=
      FileTree.node?_ensureDirectory hmade (hchild "features" (by simp)) hother
    have hdirectory : made.resolve (Settings.directory tree.workingDirectory) =
        .ok (there ++ [".featurelink"]) :=
      (FileTree.within_of_ensureDirectory hmade).resolve (hchild ".featurelink" (by simp))
    by_contra hbad
    obtain ⟨names, hnames, hfile⟩ := FileTree.isDirectory_iff.mp ((Bool.not_eq_false _).mp hbad)
    obtain ⟨above, habove, habovenode, rfl⟩ := FileTree.resolve_child_eq_ok.mp hnames
    obtain rfl := Except.ok.inj (hdirectory.symm.trans habove)
    rw [hothers (by simp)] at habovenode
    rw [FileTree.stepInto, if_neg (by simp), hothers (by simp)] at hfile
    have hbefore : tree.isDirectory (Settings.file tree.workingDirectory) = true :=
      FileTree.isDirectory_iff.mpr ⟨_, FileTree.resolve_child_eq_ok.mpr
        ⟨_, hchild ".featurelink" (by simp), habovenode, by simp [FileTree.stepInto]⟩, hfile⟩
    simp [Settings.isSaved, FileTree.exists?, FileTree.isDirectory_iff_find?.mp hbefore] at hsaved
  · exact FileTree.isDirectory_eq_false_of_isFile
      ((FileTree.within_of_ensureDirectory hmade).isFile (FileTree.isFile_of_readText htext))

/-- In a project that has room, settings can be saved once the features directory is made. -/
theorem Startable.exists_saved (h : Startable tree s) (hround : Round tree s features)
    (hmade : tree.ensureDirectory features = .ok made)
    (hdirectory : tree.isFile (Settings.directory tree.workingDirectory) = false)
    (s' : Settings) : ∃ saved, s'.save made tree.workingDirectory = .ok saved := by
  obtain ⟨there, hthere, hnode⟩ := FileTree.isDirectory_iff.mp h.directory
  have hplace : tree.resolve (Settings.directory tree.workingDirectory) =
      .ok (there ++ [".featurelink"]) :=
    FileTree.resolve_child_eq_ok.mpr ⟨there, hthere, hnode, by simp [FileTree.stepInto]⟩
  refine s'.exists_saved (h.rooted.ensureDirectory hmade)
    ((FileTree.within_of_ensureDirectory hmade).isDirectory h.directory) ?_
    (h.isDirectory_file hround hmade)
  by_contra hfile
  rw [Bool.not_eq_false] at hfile
  rw [FileTree.isFile_of_ensureDirectory hmade hfile hplace] at hdirectory
  cases hdirectory

/-- The first round. -/
theorem Startable.setUpFrom (h : Startable tree s) (hroom : HasRoom tree s) :
    ∃ made, made.workingDirectory = tree.workingDirectory ∧ ∀ {args tags}, SetsUp args tags →
      (run tree args).exitCode = 0 ∧
        SetUpFrom made (s.excludeAll tags) (run tree args).console.tree := by
  obtain ⟨features, made, hpath, hmade⟩ := hroom.features
  have hround : Round tree s features := ⟨h.loadOrUsual, hpath⟩
  have hroot := (FileTree.within_of_ensureDirectory hmade).workingDirectory
  refine ⟨made, hroot, fun {args tags} hline => ?_⟩
  obtain ⟨saved, hsaved⟩ := h.exists_saved hround hmade hroom.directory (s.excludeAll tags)
  obtain ⟨hexit, htree⟩ := hround.completes hline hmade hsaved
  refine ⟨hexit, h.textual.excludeAll tags, ⟨features, ?_,
    FileTree.isDirectory_of_ensureDirectory hmade⟩, by rw [htree, hroot, hsaved]⟩
  rw [Settings.featuresDirectory_excludeAll, hroot, hpath]

/-! ## Where there is no room -/

/-- The project has no room for its directories. -/
structure Blocked (tree : FileTree) (s : Settings) : Prop where
  startable : Startable tree s
  noRoom : ¬ HasRoom tree s

/-- With a file in the place of its directory, a project has no settings, and it has none when the
features directory is made. -/
theorem Startable.of_made (h : Startable tree s) (hmade : tree.ensureDirectory features = .ok made)
    (hfile : tree.isFile (Settings.directory tree.workingDirectory) = true) : Startable made s := by
  have hwithin := FileTree.within_of_ensureDirectory hmade
  refine ⟨h.rooted.ensureDirectory hmade, ?_, h.textual, ?_⟩ <;> rw [hwithin.workingDirectory]
  · exact hwithin.isDirectory h.directory
  · rcases h.settings with ⟨-, rfl⟩ | htext
    · refine .inl ⟨Bool.eq_false_iff.mpr fun hsaved => ?_, rfl⟩
      have hfree := Settings.isFile_directory_of_isSaved hsaved
      rw [hwithin.isFile hfile] at hfree
      cases hfree
    · have hfree := Settings.isFile_directory_of_isSaved (Settings.isSaved_of_readText htext)
      rw [hfile] at hfree
      cases hfree

/-- A round that has no room stops, and leaves the settings as they were. -/
theorem Blocked.round (h : Blocked tree s) (hline : SetsUp args tags) :
    (run tree args).exitCode = 1 ∧ Blocked (run tree args).console.tree s ∧
      (run tree args).console.tree.workingDirectory = tree.workingDirectory := by
  obtain ⟨features, hround⟩ := h.startable.exists_round
  cases hmade : tree.ensureDirectory features with
  | error fault =>
      obtain ⟨hexit, htree⟩ := hround.stops_unmade hline hmade
      rw [htree]
      exact ⟨hexit, h, rfl⟩
  | ok made =>
      -- The features directory is made each time, but the settings are not saved.
      have hfile : tree.isFile (Settings.directory tree.workingDirectory) = true := by
        by_contra hdirectory
        exact h.noRoom ⟨⟨features, made, hround.path, hmade⟩, (Bool.not_eq_true _).mp hdirectory⟩
      have hwithin := FileTree.within_of_ensureDirectory hmade
      have hstill := hwithin.isFile hfile
      cases hsave : (s.excludeAll tags).save made tree.workingDirectory with
      | ok saved => simp [Settings.isFile_directory_of_save hsave] at hstill
      | error fault =>
          obtain ⟨hexit, htree⟩ := hround.stops_unsaved hline hmade hsave
          rw [htree]
          refine ⟨hexit, ⟨h.startable.of_made hmade hfile, fun hroom => ?_⟩,
            hwithin.workingDirectory⟩
          have hfree := hroom.directory
          rw [hwithin.workingDirectory, hstill] at hfree
          cases hfree

theorem Blocked.rounds (h : Blocked tree s) (hlines : List.Forall₂ SetsUp lines tagss) :
    (∀ outcome ∈ outcomes tree lines, outcome.exitCode = 1) ∧ Blocked (treeAfter tree lines) s ∧
      (treeAfter tree lines).workingDirectory = tree.workingDirectory := by
  induction hlines generalizing tree with
  | nil => exact ⟨nofun, h, rfl⟩
  | cons hline _ ih =>
      obtain ⟨hexit, hblocked, hroot⟩ := h.round hline
      obtain ⟨hexits, hlast, hroots⟩ := ih hblocked
      exact ⟨List.forall_mem_cons.mpr ⟨hexit, hexits⟩, hlast, hroots.trans hroot⟩

/-! ## All rounds -/

/-- In a project that has room all rounds come to their end, and the tree is the one that saving the
accumulated settings once gives. -/
theorem Startable.rounds (h : Startable tree s) (hroom : HasRoom tree s) :
    ∃ made, made.workingDirectory = tree.workingDirectory ∧ ∀ {lines tagss},
      List.Forall₂ SetsUp lines tagss → lines ≠ [] →
        (∀ outcome ∈ outcomes tree lines, outcome.exitCode = 0) ∧
          SetUpFrom made (s.excludeAll tagss.flatten) (treeAfter tree lines) := by
  obtain ⟨made, hroot, hfirst⟩ := h.setUpFrom hroom
  refine ⟨made, hroot, fun {lines tagss} hlines hne => ?_⟩
  cases hlines with
  | nil => exact absurd rfl hne
  | cons hline hrest =>
      obtain ⟨hexit, hafter⟩ := hfirst hline
      obtain ⟨hexits, hlast⟩ := hafter.rounds hrest
      rw [List.flatten_cons, Settings.excludeAll_append]
      exact ⟨List.forall_mem_cons.mpr ⟨hexit, hexits⟩, hlast⟩

/-- **Setting up a project repeatedly only accumulates exclusions.**  Where the project has room for
its directories, every command line that sets it up succeeds, and then the settings are the first
ones with the new tags behind the exclusions, in the order in which they first came.  Tags that were
given before change no file, and it does not matter how the tags were divided among the command
lines.  Where there is no room, none succeeds, and the settings are the first ones. -/
theorem setUp_accumulates (h : Startable tree s) (htexts : s.excludedTags = texts.map .text)
    (hlines : List.Forall₂ SetsUp lines tagss) (hne : lines ≠ []) :
    let root := tree.workingDirectory
    let after := treeAfter tree lines
    let accumulated : Settings := { s with
      excludedTags :=
        (texts ++ (tagss.flatten.filter (· ∉ texts)).eraseDups).map .text }
    (HasRoom tree s →
      (∀ outcome ∈ outcomes tree lines, outcome.exitCode = 0) ∧
      Settings.load after root = .ok accumulated ∧
      after.readText (Settings.file root) = .ok accumulated.write ∧
      (∀ args tags, SetsUp args tags → tags ⊆ texts ++ tagss.flatten →
        (run after args).exitCode = 0 ∧ (run after args).console.tree = after) ∧
      ∀ lines' tagss', List.Forall₂ SetsUp lines' tagss' → lines' ≠ [] →
        tagss'.flatten = tagss.flatten → treeAfter tree lines' = after) ∧
    (¬ HasRoom tree s →
      (∀ outcome ∈ outcomes tree lines, outcome.exitCode = 1) ∧
      Settings.loadOrUsual after root = .ok s) := by
  intro root after accumulated
  refine ⟨fun hroom => ?_, fun hroom => ?_⟩
  · obtain ⟨made, hroot, hrounds⟩ := h.rounds hroom
    obtain ⟨hexits, hafter⟩ := hrounds hlines hne
    have haccumulated : s.excludeAll tagss.flatten = accumulated := Settings.excludeAll_eq htexts
    rw [haccumulated] at hafter
    have hsaved := hafter.textual.savedIn hafter.saved
    rw [hroot] at hsaved
    refine ⟨hexits, hsaved.load, hsaved.text, fun args tags hline hsubset => ?_,
      fun lines' tagss' hlines' hne' hflatten => ?_⟩
    -- Both trees are the one that saving the same settings in `made` gives.
    · obtain ⟨hexit, hagain⟩ := hafter.round hline
      have hsame : accumulated.excludeAll tags = accumulated :=
        Settings.excludeAll_of_subset rfl fun tag htag =>
          Settings.mem_append_newTags.mpr (hsubset htag)
      rw [hsame] at hagain
      exact ⟨hexit, Except.ok.inj (hagain.saved.symm.trans hafter.saved)⟩
    · have hother := (hrounds hlines' hne').2
      rw [hflatten, haccumulated] at hother
      exact Except.ok.inj (hother.saved.symm.trans hafter.saved)
  · obtain ⟨hexits, hblocked, hroot⟩ := Blocked.rounds ⟨h, hroom⟩ hlines
    have hload := hblocked.startable.loadOrUsual
    rw [hroot] at hload
    exact ⟨hexits, hload⟩

/-- Three command lines in a new project: the first makes its directories, the second excludes a tag
more, and the third says nothing new. -/
theorem setUp_accumulates_new_project :
    let tree : FileTree := { nodes := ⟨[(["p"], .directory)]⟩, workingDirectory := ⟨"/", ["p"]⟩ }
    let lines := [["init", "--exclude-tag", "@wip"],
      ["init", "--exclude-tag=@slow", "--exclude-tag", "@wip"], ["init"]]
    Startable tree {} ∧ HasRoom tree {} ∧
      List.Forall₂ SetsUp lines [["@wip"], ["@slow", "@wip"], []] ∧
      Settings.load (treeAfter tree lines) ⟨"/", ["p"]⟩ =
        .ok { excludedTags := [.text "@wip", .text "@slow"] } ∧
      treeAfter tree [setUpLine ["@wip", "@slow", "@wip"]] = treeAfter tree lines := by
  intro tree lines
  have hstart : Startable tree {} :=
    ⟨FileTree.rooted_singleton _ _, by decide, Settings.textual_usual, .inl ⟨by decide, rfl⟩⟩
  have hroom : HasRoom tree {} := ⟨⟨⟨"/", ["p", "features"]⟩, _, rfl, rfl⟩, by decide⟩
  have hlines : List.Forall₂ SetsUp lines [["@wip"], ["@slow", "@wip"], []] :=
    .cons (by decide) (.cons (by decide) (.cons (by decide) .nil))
  have htexts : ({} : Settings).excludedTags = ([] : List String).map .text := rfl
  obtain ⟨-, hload, -, -, hsplit⟩ :=
    (setUp_accumulates hstart htexts hlines (by simp [lines])).1 hroom
  exact ⟨hstart, hroom, hlines, hload,
    hsplit _ _ (.cons (setsUp_setUpLine _) .nil) (by simp) rfl⟩

end StepTrace.Command
