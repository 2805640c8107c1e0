import StepTrace.Command.Perform
import StepTrace.Proofs.Returns.Batches

/-!
# Faults that commands report

Faults of the settings and of the manifest are for the user to mend (`Mendable`), so a command is to
report them and stop, and to leave all files as they are.  Linking and listing tags do
(`run_refused`): whatever they come upon, no such fault stops them unreported
(`mendable_fault_iff`).  Setting up a project does not: it loads the settings that are there before
it changes them, and a fault of theirs stops it unreported, behind the warning that there are some.
-/

namespace StepTrace

/-! ## Parts of commands -/

/-- The fault is one of the settings or of the manifest. -/
def Fault.Mendable (fault : Fault) : Prop :=
  (Action.reportOf? fault).isSome

namespace Action

variable {α β : Type}

theorem run_print (lines : List String) (c : Console) :
    (print lines).run c = (.ok (), { c with lines := c.lines ++ lines }) :=
  rfl

theorem run_refuse (reason : String) (c : Console) : (refuse reason : Action α).run c =
    (.error .reported, { c with lines := c.lines ++ ["Error: " ++ reason] }) :=
  rfl

theorem run_tree (c : Console) : tree.run c = (.ok c.tree, c) :=
  rfl

theorem run_checkReporting {fault : Fault} {reason : String} (h : reportOf? fault = some reason)
    (c : Console) : (checkReporting (.error fault : Except Fault α)).run c =
      (.error .reported, { c with lines := c.lines ++ ["Error: " ++ reason] }) := by
  rw [checkReporting, h]
  exact run_refuse reason c

/-- A job whose fault can be reported stops the command with the report. -/
theorem run_perform_refused {job : Job α} {fault : Fault} {reason : String} {w : Work}
    (hjob : job.run { store := {} } = (.error fault, w)) (h : reportOf? fault = some reason)
    (c : Console) : ∃ warnings, (perform job).run c =
      (.error .reported, { c with lines := c.lines ++ ["Error: " ++ reason], warnings }) := by
  refine ⟨c.warnings ++ w.warnings, ?_⟩
  have hunfold : (perform job).run c = (do
      return (w.store, ← checkReporting (.error fault)) : Action (Store × α)).run
        { c with warnings := c.warnings ++ w.warnings } := by
    unfold perform
    rw [hjob]
    rfl
  rw [hunfold]
  exact run_bind_error (run_checkReporting h _)

/-! ## Parts that no mendable fault stops unreported -/

/-- Faults of the settings and of the manifest do not stop the part of a command unreported. -/
def Reports (x : Action α) : Prop :=
  ∀ c fault c', x.run c = (.error (.fault fault), c') → ¬ fault.Mendable

namespace Reports

theorem pure (a : α) : Reports (Pure.pure a) :=
  nofun

theorem bind {x : Action α} {f : α → Action β} (hx : Reports x) (hf : ∀ a, Reports (f a)) :
    Reports (x >>= f) := by
  intro c fault c' hrun
  rw [run_bind] at hrun
  rcases hresult : x.run c with ⟨stop | a, c₁⟩
  · rw [hresult] at hrun
    cases hrun
    exact hx c fault c' hresult
  · rw [hresult] at hrun
    exact hf a c₁ fault c' hrun

theorem print (lines : List String) : Reports (Action.print lines) :=
  nofun

theorem tree_bind {f : FileTree → Action β} (hf : ∀ tree, Reports (f tree)) :
    Reports (Action.tree >>= f) :=
  fun c => hf c.tree c

theorem refuse (reason : String) : Reports (Action.refuse reason : Action α) := by
  intro c fault c' hrun
  rw [run_refuse] at hrun
  cases hrun

theorem check {result : Except Fault α} (h : ∀ fault, result = .error fault → ¬ fault.Mendable) :
    Reports (Action.check result) := by
  intro c fault c' hrun
  cases result with
  | ok a => cases hrun
  | error fault' =>
      cases hrun
      exact h _ rfl

theorem checkReporting (result : Except Fault α) : Reports (Action.checkReporting result) := by
  intro c fault c' hrun
  cases result with
  | ok a => cases hrun
  | error fault' =>
      cases hreport : reportOf? fault' with
      | some reason =>
          rw [run_checkReporting hreport] at hrun
          cases hrun
      | none =>
          rw [Action.checkReporting, hreport] at hrun
          cases hrun
          rw [Fault.Mendable, hreport]
          exact nofun

theorem changeTree (change : FileTree → Except FileFault FileTree) :
    Reports (Action.changeTree change) := by
  unfold Action.changeTree
  refine .tree_bind fun tree => ?_
  split
  · exact nofun
  · intro c fault c' hrun
    cases hrun
    exact nofun

theorem forM {xs : List α} {f : α → Action Unit} (hf : ∀ x, Reports (f x)) :
    Reports (xs.forM f) := by
  induction xs with
  | nil => exact .pure ()
  | cons x xs ih => exact .bind (hf x) fun _ => ih

theorem perform (job : Job α) : Reports (Action.perform job) := by
  intro c
  unfold Action.perform
  rcases job.run { store := {} } with ⟨result, w⟩
  exact bind (x := modify fun c => { c with warnings := c.warnings ++ w.warnings }) nofun
    (fun _ => bind (checkReporting result) fun _ => .pure _) c

end Reports

end Action

namespace Command

open StepTrace.Action

variable {tree : FileTree} {selection : Selection} {wantsManifest : Bool}

theorem settingPath_not_mendable {root : Path} {setting : Value} {fault : Fault}
    (h : settingPath root setting = .error fault) : ¬ fault.Mendable := by
  unfold settingPath at h
  split at h
  · cases h
  · cases h
    exact nofun

theorem choosePath_not_mendable {root : Path} {given : Option String} {setting : Value}
    {fault : Fault} (h : choosePath root given setting = .error fault) : ¬ fault.Mendable := by
  unfold choosePath at h
  split at h
  · cases h
  · exact settingPath_not_mendable h

theorem unmatchedLine_not_mendable {s : Store} {id : String} {fault : Fault}
    (h : Summary.unmatchedLine s id = .error fault) : ¬ fault.Mendable := by
  unfold Summary.unmatchedLine at h
  split at h
  · cases h
  · cases h
    exact nofun

theorem unusedLine_not_mendable {s : Store} {id : String} {fault : Fault}
    (h : Summary.unusedLine s id = .error fault) : ¬ fault.Mendable := by
  unfold Summary.unusedLine at h
  split at h
  · cases h
  · cases h
    exact nofun

theorem labelOf_error {id : String} {face : Option NodeFace} {fault : Fault}
    (h : Dot.labelOf id face = .error fault) : fault = .missingField := by
  unfold Dot.labelOf at h
  split at h
  · split at h
    · cases h
    · cases h
      rfl
  · cases h

/-- A loop that is refused is refused at one of its elements. -/
theorem exists_of_mapM_error {α β : Type} {f : α → Except Fault β} {xs : List α} {fault : Fault}
    (h : xs.mapM f = .error fault) : ∃ x ∈ xs, f x = .error fault := by
  induction xs with
  | nil => cases h
  | cons x xs ih =>
      rw [List.mapM_cons] at h
      cases hfirst : f x with
      | error fault' =>
          rw [hfirst] at h
          cases h
          exact ⟨x, List.mem_cons_self .., hfirst⟩
      | ok y =>
          rw [hfirst] at h
          cases hrest : xs.mapM f with
          | error fault' =>
              rw [hrest] at h
              cases h
              obtain ⟨x', hx', hfault⟩ := ih hrest
              exact ⟨x', List.mem_cons_of_mem _ hx', hfault⟩
          | ok ys =>
              rw [hrest] at h
              cases h

theorem dot_not_mendable {s : Store} {fault : Fault} (h : Dot.write s = .error fault) :
    ¬ fault.Mendable := by
  have hnode : ∀ {id : String} {face : Option NodeFace} {fault : Fault},
      Dot.nodeLine id face = .error fault → fault = .missingField := by
    intro id face fault h
    unfold Dot.nodeLine at h
    cases hlabel : Dot.labelOf id face with
    | ok label =>
        rw [hlabel] at h
        cases h
    | error fault' =>
        rw [hlabel] at h
        cases h
        exact labelOf_error hlabel
  let lineOf (node : String × Option NodeFace) : Except Fault String := Dot.nodeLine node.1 node.2
  obtain ⟨around, hwrite⟩ : ∃ around : List String → List String, Dot.lines (.ofStore s) = (do
      let nodes ← (LinkGraph.ofStore s).nodes.entries.mapM lineOf
      return around nodes) := ⟨_, rfl⟩
  rw [Dot.write, hwrite] at h
  cases hlines : (LinkGraph.ofStore s).nodes.entries.mapM lineOf with
  | error fault' =>
      rw [hlines] at h
      cases h
      obtain ⟨node, -, hline⟩ := exists_of_mapM_error hlines
      rw [hnode hline]
      exact nofun
  | ok lines =>
      rw [hlines] at h
      cases h

theorem chooseRun_reports (selection : Selection) (wantsManifest : Bool) :
    Reports (chooseRun selection wantsManifest) := by
  unfold chooseRun
  refine .tree_bind fun tree => .bind (.checkReporting _) fun settings => ?_
  refine .bind (.check fun _ => choosePath_not_mendable) fun features => ?_
  split
  · split
    · exact .bind (.check fun _ => choosePath_not_mendable) fun manifest => .pure _
    · exact .pure _
  · exact .refuse _

theorem trace_reports (selection : Selection) (wantsManifest : Bool) :
    Reports (trace selection wantsManifest) :=
  .bind (chooseRun_reports selection wantsManifest) fun _ => .tree_bind fun _ => .perform _

theorem printSummary_reports (s : Store) (r : RunResult) : Reports (printSummary s r) := by
  unfold printSummary
  refine .bind (.print _) fun _ => .bind (.forM fun id => ?_) fun _ => ?_
  · exact .bind (.check fun _ => unmatchedLine_not_mendable) fun _ => .print _
  · dsimp only
    split
    · refine .bind (.print _) fun _ => .bind (.forM fun id => ?_) fun _ => .print _
      exact .bind (.check fun _ => unusedLine_not_mendable) fun _ => .print _
    · exact .print _

/-- Whatever linking comes upon, it reports the faults that can be mended. -/
theorem linkProject_reports (selection : Selection) (format : LinkFormat) :
    Reports (linkProject selection format) := by
  unfold linkProject
  refine .bind (trace_reports selection true) fun result => .bind ?_ fun _ => ?_
  · exact .tree_bind fun tree => .bind (.changeTree _) fun _ => .changeTree _
  · split
    · exact .print _
    · exact .bind (.check fun _ => dot_not_mendable) fun _ => .print _
    · exact printSummary_reports _ _

/-! ## Settings and manifests that are refused -/

/-- The command loads the settings of the project, if there are any. -/
def LoadsSettings : Command → Prop
  | .setUp _ | .link _ _ | .listTags _ => True
  | .version | .help => False

/-- What the command loads is refused with a fault that the user is to mend: the settings, or the
manifest, which is loaded when the settings are there and the features are built. -/
inductive Refused (tree : FileTree) : Command → Fault → Prop
  | settings {command : Command} {fault : SettingsFault} (hcommand : command.LoadsSettings)
      (h : Settings.loadOrUsual tree tree.workingDirectory = .error (.settings fault)) :
      Refused tree command (.settings fault)
  | manifest {selection : Selection} {format : LinkFormat} {run : Run} {batch : Batch}
      {w w' : Work} {fault : ManifestFault}
      (hrun : (chooseRun selection true).run { tree } = (.ok run, { tree }))
      (hbatch : (Batch.build tree run.settings (some (Run.base tree run.features))
        (Run.sources tree run.features)).run { store := {} } = (.ok batch, w))
      (h : (run.registerManifest tree).run w = (.error (.manifest fault), w')) :
      Refused tree (.link selection format) (.manifest fault)

theorem Refused.mendable {command : Command} {fault : Fault} (h : Refused tree command fault) :
    fault.Mendable := by
  cases h <;> rfl

theorem chooseRun_refused {fault : Fault} {reason : String}
    (h : Settings.loadOrUsual tree tree.workingDirectory = .error fault)
    (hreason : reportOf? fault = some reason) : (chooseRun selection wantsManifest).run { tree } =
      (.error .reported, { tree, lines := ["Error: " ++ reason] }) := by
  unfold chooseRun
  rw [run_bind_ok (run_tree _)]
  dsimp only
  rw [h]
  exact run_bind_error (run_checkReporting hreason _)

/-- Linking and listing tags report what is refused, and leave the files as they are. -/
theorem run_refused {command : Command} {fault : Fault} (h : Refused tree command fault)
    (hcommand : ∀ excluded, command ≠ .setUp excluded) : ∃ reason warnings,
      reportOf? fault = some reason ∧ (perform command).run { tree } =
        (.error .reported, { tree, lines := ["Error: " ++ reason], warnings }) := by
  cases h with
  | @settings command fault hloads h =>
      have htrace : ∀ selection wantsManifest, (trace selection wantsManifest).run { tree } =
          (.error .reported, { tree, lines := ["Error: " ++ fault.message] }) :=
        fun _ _ => run_bind_error (chooseRun_refused h rfl)
      cases command with
      | setUp excluded => exact absurd rfl (hcommand excluded)
      | link selection format => exact ⟨_, [], rfl, run_bind_error (htrace selection true)⟩
      | listTags selection => exact ⟨_, [], rfl, run_bind_error (htrace selection false)⟩
      | version | help => exact hloads.elim
  | @manifest selection format run batch w w' fault hrun hbatch h =>
      have hjob : (run.perform tree).run { store := {} } = (.error (.manifest fault), w') := by
        have hunfold : (run.perform tree).run { store := {} } = (do
            let batch ← Batch.build tree run.settings (some (Run.base tree run.features))
              (Run.sources tree run.features)
            run.registerManifest tree
            let report ← LinkingPass.linkAll
            return { batch, report } : Job RunResult).run { store := {} } := rfl
        rw [hunfold, run_bind_ok hbatch]
        exact run_bind_error h
      obtain ⟨warnings, hperform⟩ := run_perform_refused hjob
        (show reportOf? (.manifest fault) = some fault.message from rfl) { tree }
      refine ⟨fault.message, warnings, rfl, run_bind_error ?_⟩
      unfold trace
      rw [run_bind_ok hrun, run_bind_ok (run_tree _)]
      exact hperform

/-- Setting up a project that has settings says so before it loads them. -/
def alreadySetUp : String :=
  "Warning: Project is already initialized. Updating configuration."

/-- Setting up a project does not report what is refused. -/
theorem setUp_refused {excluded : List String} {fault : Fault}
    (h : Settings.loadOrUsual tree tree.workingDirectory = .error fault) :
    (perform (.setUp excluded)).run { tree } =
      (.error (.fault fault), { tree, lines := [alreadySetUp] }) := by
  change (setUpProject excluded).run { tree } = _
  unfold setUpProject
  rw [run_bind_ok (run_tree _)]
  dsimp only
  unfold Settings.loadOrUsual at h
  split at h
  · rename_i hsaved
    rw [if_pos hsaved, run_bind_ok (run_print _ _), h]
    rfl
  · cases h

/-- With settings that can be read it comes upon no fault that can be mended. -/
theorem setUp_loaded {excluded : List String} {settings : Settings} {fault : Fault} {c : Console}
    (h : Settings.loadOrUsual tree tree.workingDirectory = .ok settings)
    (hrun : (perform (.setUp excluded)).run { tree } = (.error (.fault fault), c)) :
    ¬ fault.Mendable := by
  have hrest : ∀ (settings : Settings) (root : Path) (lines : Path → List String), Reports (do
      let features ← check (settingPath root settings.featuresDirectory)
      saveProject settings root features
      print (lines features) : Action Unit) := fun settings root lines =>
    .bind (.check fun _ => settingPath_not_mendable) fun _ =>
      .bind (.bind (.changeTree _) fun _ => .changeTree _) fun _ => .print _
  change (setUpProject excluded).run { tree } = _ at hrun
  unfold setUpProject at hrun
  rw [run_bind_ok (run_tree _)] at hrun
  dsimp only at hrun
  unfold Settings.loadOrUsual at h
  split at h
  · rename_i hsaved
    rw [if_pos hsaved, run_bind_ok (run_print _ _), h] at hrun
    exact hrest (settings.excludeAll excluded) _ (fun _ => _) _ _ _ hrun
  · rename_i hsaved
    rw [if_neg hsaved] at hrun
    exact hrest (({} : Settings).excludeAll excluded) _ _ _ _ _ hrun

/-- Setting up a project is refused for the settings only. -/
theorem Refused.settings_of_setUp {excluded : List String} {fault : Fault}
    (h : Refused tree (.setUp excluded) fault) :
    Settings.loadOrUsual tree tree.workingDirectory = .error fault := by
  cases h
  assumption

theorem ofValue_not_mendable {v : Value} {fault : Fault}
    (h : Settings.ofValue v = .error fault) : ¬ fault.Mendable := by
  have helements : ∀ {v : Value} {fault : Fault}, v.elements = .error fault → ¬ fault.Mendable := by
    intro v fault h
    cases v <;> cases h <;> exact nofun
  have hbind : ∀ {v : Value} {f : List Value → Except Fault Settings},
      (v.elements >>= f) = .error fault → ¬ fault.Mendable ∨ ∃ vs, f vs = .error fault := by
    intro v f h
    cases hv : v.elements with
    | error fault' =>
        rw [hv] at h
        cases h
        exact Or.inl (helements hv)
    | ok vs =>
        rw [hv] at h
        exact Or.inr ⟨vs, h⟩
  unfold Settings.ofValue at h
  rcases hbind h with hfault | ⟨tags, h⟩
  · exact hfault
  · rcases hbind h with hfault | ⟨words, h⟩
    · exact hfault
    · cases h

/-- Whatever else keeps settings from being loaded is not the user's to mend. -/
theorem settings_of_mendable {root : Path} {fault : Fault} (hmendable : fault.Mendable)
    (h : Settings.loadOrUsual tree root = .error fault) : ∃ f, fault = .settings f := by
  have hread : ∀ {path text : String}, Settings.read path text = .error fault →
      ∃ f, fault = .settings f := by
    intro path text h
    unfold Settings.read at h
    split at h
    · cases h
      exact ⟨_, rfl⟩
    · split at h
      · exact absurd hmendable (ofValue_not_mendable h)
      · cases h
        exact ⟨_, rfl⟩
  unfold Settings.loadOrUsual at h
  split at h
  · rename_i hsaved
    unfold Settings.load at h
    dsimp only at h
    rw [if_pos hsaved] at h
    cases htext : tree.readText (Settings.file root) with
    | error fault' =>
        rw [htext] at h
        cases h
        rcases FileTree.readText_error htext with rfl | ⟨f, rfl⟩ <;> cases hmendable
    | ok text =>
        rw [htext] at h
        exact hread h
  · cases h

/-! ## Command lines -/

/-- **A mendable fault stops a command unreported if and only if it sets up a project whose settings
are refused.** -/
theorem mendable_fault_iff (tree : FileTree) (args : List String) (fault : Fault) :
    (run tree args).fault = some fault ∧ fault.Mendable ↔
      ∃ excluded, ofArguments? args = some (.setUp excluded) ∧
        Refused tree (.setUp excluded) fault := by
  constructor
  · rintro ⟨hfault, hmendable⟩
    unfold run at hfault
    cases hcommand : ofArguments? args with
    | none =>
        rw [hcommand] at hfault
        cases hfault
    | some command =>
        rw [hcommand] at hfault
        dsimp only at hfault
        split at hfault
        · cases hfault
        · cases hfault
        · rename_i fault' c hrun
          obtain rfl : fault' = fault := Option.some.inj hfault
          have hreports : ¬ Reports (perform command) := fun hall => hall _ _ _ hrun hmendable
          cases command with
          | link selection format => exact absurd (linkProject_reports selection format) hreports
          | listTags selection =>
              exact absurd (.bind (trace_reports selection false) fun _ => .print _) hreports
          | version => exact absurd (.print _) hreports
          | help => exact absurd (.pure ()) hreports
          | setUp excluded =>
              refine ⟨excluded, rfl, ?_⟩
              cases hload : Settings.loadOrUsual tree tree.workingDirectory with
              | error fault =>
                  rw [setUp_refused hload] at hrun
                  cases hrun
                  obtain ⟨f, rfl⟩ := settings_of_mendable hmendable hload
                  exact .settings trivial hload
              | ok settings => exact absurd hmendable (setUp_loaded hload hrun)
  · rintro ⟨excluded, hcommand, h⟩
    refine ⟨?_, h.mendable⟩
    rw [run, hcommand]
    dsimp only
    rw [setUp_refused h.settings_of_setUp]

/-- The outcome of a command that stops for a fault as it should: the fault is reported, and the
files are as they were. -/
structure Reported (tree : FileTree) (fault : Fault) (outcome : Outcome) : Prop where
  exitCode : outcome.exitCode = 1
  caught : outcome.fault = none
  lines : ∃ reason, reportOf? fault = some reason ∧ outcome.console.lines = ["Error: " ++ reason]
  unchanged : outcome.console.tree = tree

/-- **Refused settings and manifests are reported if and only if the command does not set up a
project.**  Setting up a project lets the fault escape, though it leaves the files as they are
too. -/
theorem refused_reported_iff {tree : FileTree} {args : List String} {command : Command}
    {fault : Fault} (hcommand : ofArguments? args = some command) (h : Refused tree command fault) :
    (Reported tree fault (run tree args) ↔ ∀ excluded, command ≠ .setUp excluded) ∧
      ∀ excluded, command = .setUp excluded → run tree args =
        { exitCode := 1, fault := some fault, console := { tree, lines := [alreadySetUp] } } := by
  have hsetUp : ∀ excluded, command = .setUp excluded → run tree args =
      { exitCode := 1, fault := some fault, console := { tree, lines := [alreadySetUp] } } := by
    rintro excluded rfl
    rw [run, hcommand]
    dsimp only
    rw [setUp_refused h.settings_of_setUp]
  refine ⟨⟨?_, fun hother => ?_⟩, hsetUp⟩
  · intro hreported excluded hexcluded
    have hcaught := hreported.caught
    rw [hsetUp excluded hexcluded] at hcaught
    cases hcaught
  · obtain ⟨reason, warnings, hreason, hrun⟩ := run_refused h hother
    have hrun : run tree args =
        { exitCode := 1, console := { tree, lines := ["Error: " ++ reason], warnings } } := by
      rw [run, hcommand]
      dsimp only
      rw [hrun]
    rw [hrun]
    exact ⟨rfl, rfl, ⟨reason, hreason, rfl⟩, rfl⟩

/-- A mill whose settings are no JSON text. -/
private def mill : FileTree where
  nodes := ⟨[([".featurelink"], .directory),
    ([".featurelink", "config.json"], .file (some "\x7b"))]⟩
  workingDirectory := .ofString "/"

private theorem loadOrUsual_mill : Settings.loadOrUsual mill mill.workingDirectory =
    .error (.settings (.unreadable "/.featurelink/config.json")) := by
  rfl

/-- Linking the mill and listing its tags report its settings. -/
theorem refused_reported_iff_mill :
    (ofArguments? ["link"] = some (.link {} .summary) ∧
      Refused mill (.link {} .summary) (.settings (.unreadable "/.featurelink/config.json"))) ∧
    Reported mill (.settings (.unreadable "/.featurelink/config.json")) (run mill ["link"]) ∧
    Reported mill (.settings (.unreadable "/.featurelink/config.json")) (run mill ["tags"]) := by
  have hlink : Refused mill (.link {} .summary) _ := .settings trivial loadOrUsual_mill
  have htags : Refused mill (.listTags {}) _ := .settings trivial loadOrUsual_mill
  refine ⟨⟨by decide, hlink⟩, ?_, ?_⟩
  · exact (refused_reported_iff (by decide) hlink).1.mpr nofun
  · exact (refused_reported_iff (by decide) htags).1.mpr nofun

/-- **Setting up the mill does not report its settings.** -/
theorem setUp_unreported : ¬ ∀ tree args command fault, ofArguments? args = some command →
    Refused tree command fault → Reported tree fault (run tree args) := by
  intro hreported
  have hsetUp : Refused mill (.setUp []) _ := .settings trivial loadOrUsual_mill
  have hcaught := (hreported mill ["init"] _ _ (by decide) hsetUp).caught
  rw [run, show ofArguments? ["init"] = some (.setUp []) by decide] at hcaught
  dsimp only at hcaught
  rw [setUp_refused loadOrUsual_mill] at hcaught
  cases hcaught

end Command

end StepTrace
