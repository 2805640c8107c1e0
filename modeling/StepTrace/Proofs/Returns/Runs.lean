import StepTrace.Proofs.Linking.Run
import StepTrace.Proofs.Returns.Batches

/-!
# Runs that return

A feature file that cannot be read or parsed does not stop a run, and neither does a pattern or a
step that cannot be linked.  What does stop it are bytes that are no text: a run comes to its end if
and only if all its feature files hold texts (`perform_returns_iff`).

What comes after the batch, the manifest and the links, says nothing more about feature files, and
leaves the features their identifiers (`Job.Discreet`).
-/

namespace StepTrace

open Store LinkingPass

/-! ## Jobs that leave the feature files alone -/

/-- It is about a feature file. -/
def Warning.isOfFile : Warning → Bool
  | .unreadFile .. | .unbuiltFile .. => true
  | _ => false

/-- Features stay what they were, and nothing is said about their files. -/
structure Work.Later (w w' : Work) : Prop where
  warnings : w'.warnings.filter Warning.isOfFile = w.warnings.filter Warning.isOfFile
  feature : ∀ r : Ref Feature, w.store.Has (.feature r) →
    w'.store.Has (.feature r) ∧ (w'.store.get r).id = (w.store.get r).id

namespace Work.Later

variable {w w' w'' : Work}

theorem refl (w : Work) : w.Later w :=
  ⟨rfl, fun _ hr => ⟨hr, rfl⟩⟩

theorem trans (h : w.Later w') (h' : w'.Later w'') : w.Later w'' := by
  refine ⟨h'.warnings.trans h.warnings, fun r hr => ?_⟩
  obtain ⟨hhas, hid⟩ := h.feature r hr
  obtain ⟨hhas', hid'⟩ := h'.feature r hhas
  exact ⟨hhas', hid'.trans hid⟩

/-- Warnings about other things may be added. -/
theorem warn (w : Work) {warnings : List Warning} (h : ∀ x ∈ warnings, x.isOfFile = false) :
    w.Later { w with warnings := w.warnings ++ warnings } := by
  refine ⟨?_, fun _ hr => ⟨hr, rfl⟩⟩
  have hnone : warnings.filter Warning.isOfFile = [] :=
    List.filter_eq_nil_iff.mpr fun x hx => by rw [h x hx]; exact nofun
  rw [List.filter_append, hnone, List.append_nil]

theorem of_rewired (h : Rewired w.store w'.store) (hwarnings : w'.warnings = w.warnings) :
    w.Later w' :=
  ⟨by rw [hwarnings], fun _ hr => ⟨(h.has _).mpr hr, h.idOf hr⟩⟩

theorem rewire {s : Store} (h : Rewired w.store s) : w.Later { w with store := s } :=
  ⟨rfl, fun _ hr => ⟨(h.has _).mpr hr, h.idOf hr⟩⟩

end Work.Later

/-- However it ends, the action leaves the feature files alone; `work` is what it works on. -/
def Discreet {σ α : Type} (work : σ → Work) (x : ExceptT Fault (StateM σ) α) : Prop :=
  ∀ w, (work w).Later (work (x.run w).2)

namespace Discreet

variable {σ α β : Type} {work : σ → Work}

theorem pure (a : α) : Discreet work (Pure.pure a) :=
  fun w => .refl (work w)

theorem throw (fault : Fault) : Discreet work (MonadExcept.throw fault : ExceptT Fault (StateM σ) α) :=
  fun w => .refl (work w)

theorem bind {x : ExceptT Fault (StateM σ) α} {f : α → ExceptT Fault (StateM σ) β}
    (hx : Discreet work x) (hf : ∀ a, Discreet work (f a)) : Discreet work (x >>= f) := by
  intro w
  have hw := hx w
  rw [Action.run_bind]
  rcases hresult : x.run w with ⟨fault | a, w'⟩
  · rwa [hresult] at hw
  · rw [hresult] at hw
    exact hw.trans (hf a w')

theorem get_bind {f : σ → ExceptT Fault (StateM σ) β} (hf : ∀ w, Discreet work (f w)) :
    Discreet work (get >>= f) :=
  fun w => hf w w

theorem state {f : σ → σ} (hf : ∀ w, (work w).Later (work (f w))) :
    Discreet work (modify f : ExceptT Fault (StateM σ) PUnit) :=
  fun w => hf w

theorem forM {xs : List α} {f : α → ExceptT Fault (StateM σ) Unit}
    (hf : ∀ x, Discreet work (f x)) : Discreet work (xs.forM f) := by
  induction xs with
  | nil => exact .pure ()
  | cons x xs ih => exact .bind (hf x) fun _ => ih

theorem mapM {xs : List α} {f : α → ExceptT Fault (StateM σ) β}
    (hf : ∀ x, Discreet work (f x)) : Discreet work (xs.mapM f) := by
  induction xs with
  | nil => exact .pure []
  | cons x xs ih =>
      rw [List.mapM_cons]
      exact .bind (hf x) fun _ => .bind ih fun _ => .pure _

end Discreet

/-- The job leaves the feature files alone. -/
abbrev Job.Discreet {α : Type} (x : Job α) : Prop :=
  StepTrace.Discreet id x

theorem Job.warn_discreet {warnings : List Warning} (h : ∀ x ∈ warnings, x.isOfFile = false) :
    (Job.warn warnings).Discreet :=
  fun w => .warn w h

theorem Job.register_discreet {α : Type} [Record α] [HeapRecord α] (x : α) :
    (Job.build (Build.register x)).Discreet := by
  refine fun w => ⟨rfl, fun r hr => ⟨(has_register_iff w.store x _).mpr (Or.inl hr), ?_⟩⟩
  exact congrArg Feature.id (get_eq_of_content_eq (content_register_of_has x hr))

/-! ## The manifest -/

namespace Manifest

theorem expandNames_isOfFile (constants : Constants) (names : List (List Char)) (s : List Char) :
    ∀ x ∈ (expandNames constants names s).2, x.isOfFile = false := by
  induction names generalizing s with
  | nil => exact nofun
  | cons name names ih =>
      rw [expandNames]
      split
      · exact ih _
      · exact List.forall_mem_cons.mpr ⟨rfl, ih _⟩

theorem expandRounds_isOfFile (constants : Constants) (rounds : Nat) (s : List Char) :
    ∀ x ∈ (expandRounds constants rounds s).2, x.isOfFile = false := by
  induction rounds generalizing s with
  | zero => exact List.forall_mem_singleton.mpr rfl
  | succ rounds ih =>
      rw [expandRounds]
      split
      · exact nofun
      · intro x hx
        rcases List.mem_append.mp hx with hx | hx
        · exact expandNames_isOfFile constants _ s x hx
        · exact ih _ x hx

theorem substituteConstants_isOfFile (constants : Constants) (pattern : String) :
    ∀ x ∈ (substituteConstants constants pattern).2, x.isOfFile = false := by
  unfold substituteConstants
  exact expandRounds_isOfFile constants maxRounds pattern.toList

theorem check_discreet {α : Type} (result : Except ManifestFault α) :
    (check result).Discreet := by
  cases result with
  | ok a => exact .pure a
  | error fault => exact .throw _

theorem patternOf_discreet (constants : Constants) (entry : Value) (source : String) :
    (patternOf constants entry source).Discreet := by
  unfold patternOf
  refine .bind (check_discreet _) fun pattern => ?_
  exact .bind (Job.warn_discreet (substituteConstants_isOfFile constants _)) fun _ => .pure _

theorem registerDefinition_discreet (constants : Constants) (source : String) (entry : Value) :
    (registerDefinition constants source entry).Discreet := by
  unfold registerDefinition
  refine .bind (fun w => .refl w) fun s => ?_
  exact .bind (patternOf_discreet constants entry source) fun pattern => Job.register_discreet _

theorem registerTransform_discreet (constants : Constants) (source : String) (entry : Value) :
    (registerTransform constants source entry).Discreet := by
  have hregister : ∀ keyword, (do
      let id := recordId entry "step_transform" ((← Job.store).catalog.count .transform)
      let pattern ← patternOf constants entry source
      Job.build (Build.register {
        id
        keyword
        pattern
        source := (entryField entry "source" (.text "")).display : Transform }) :
        Job (Ref Transform)).Discreet := fun keyword =>
    .bind (fun w => .refl w) fun s =>
      .bind (patternOf_discreet constants entry source) fun pattern => Job.register_discreet _
  unfold registerTransform
  dsimp only
  split
  · exact .bind (Job.warn_discreet (List.forall_mem_singleton.mpr rfl)) fun _ => hregister _
  · exact hregister _

theorem register_discreet (data : Value) (stepKeywords : List Value) (source : String) :
    (register data stepKeywords source).Discreet := by
  unfold register
  split
  · exact .pure _
  · split
    · exact .throw _
    · refine .bind (check_discreet _) fun constants => .bind (check_discreet _) fun entries => ?_
      refine .bind (.mapM fun entry => registerDefinition_discreet constants source entry) fun _ => ?_
      refine .bind (check_discreet _) fun entries => ?_
      exact .bind (.mapM fun entry => registerTransform_discreet constants source entry) fun _ =>
        .pure _

end Manifest

theorem Run.registerManifest_discreet (run : Run) (tree : FileTree) :
    (run.registerManifest tree).Discreet := by
  unfold registerManifest
  split
  · exact .pure ()
  · split
    · refine .bind ?_ fun _ => .pure ()
      unfold Manifest.load
      refine .bind ?_ fun text => ?_
      · rename_i path _ _
        cases tree.readText path with
        | ok text => exact .pure text
        | error fault => exact .throw fault
      · split
        · exact Manifest.register_discreet _ _ _
        · exact .throw _
        · exact .throw _
    · exact Job.warn_discreet (List.forall_mem_singleton.mpr rfl)

/-! ## The links -/

namespace LinkingPass

/-- The step of a pass leaves the feature files alone. -/
abbrev Discreet {α : Type} (x : Linking α) : Prop :=
  StepTrace.Discreet LinkingWork.toWork x

theorem job_discreet {α : Type} {t : Job α} (ht : t.Discreet) : Discreet (job t) :=
  fun w => ht w.toWork

theorem readPattern_isOfFile {v : Value} {regex? : Option Regex} {warnings : List Warning}
    (h : Linking.readPattern v = .ok (regex?, warnings)) : ∀ x ∈ warnings, x.isOfFile = false := by
  unfold Linking.readPattern at h
  split at h
  · split at h
    · cases h
      exact nofun
    · split at h
      · cases h
      · cases h
        exact List.forall_mem_singleton.mpr rfl
  · cases h
    exact nofun

theorem readAll_discreet {α : Type} (pattern : α → Value) (xs : List α) :
    (PatternCache.readAll pattern xs).Discreet := by
  induction xs with
  | nil => exact .pure []
  | cons x xs ih =>
      unfold PatternCache.readAll
      split
      · exact .throw _
      · rename_i warnings hread
        refine .bind (Job.warn_discreet (readPattern_isOfFile hread)) fun _ => .bind ih fun rest => ?_
        split
        · exact .pure _
        · exact .pure _

theorem patterns_discreet : Discreet patterns := by
  unfold patterns
  refine .get_bind fun w => ?_
  split
  · exact .pure _
  · refine .bind (job_discreet ?_) fun cache => .bind (.state fun w => .refl w.toWork) fun _ => .pure _
    unfold PatternCache.ofStore
    refine .bind (fun w => .refl w) fun s => .bind (readAll_discreet _ _) fun _ => ?_
    exact .bind (readAll_discreet _ _) fun _ => .pure _

theorem linkStep_discreet (cache : PatternCache) (step : Ref Step) :
    (linkStep cache step).Discreet := by
  intro w
  refine .of_rewired (linkStep_rewired cache step w) ?_
  unfold linkStep
  rw [Action.run_bind_ok (Job.store_run w)]
  rcases cache.firstDefinition? (w.store.get step).text with fault | _ | ⟨definition, m⟩ <;> rfl

theorem linkSteps_discreet (cache : PatternCache) (steps : List (Ref Step)) :
    Discreet (linkSteps cache steps) := by
  induction steps with
  | nil => exact .pure ()
  | cons step steps ih =>
      unfold linkSteps
      refine .bind (job_discreet (linkStep_discreet cache step)) fun found => .get_bind fun w => ?_
      dsimp only
      split
      · exact .bind (.state fun w => .refl w.toWork) fun _ => ih
      · exact .bind (.state fun w => .refl w.toWork) fun _ => ih

theorem linkScenarios_discreet (entry : Option Entry) : Discreet (linkScenarios entry) := by
  unfold linkScenarios
  refine .bind patterns_discreet fun cache => ?_
  split
  · exact .get_bind fun w => .forM fun scenario => .get_bind fun w => linkSteps_discreet cache _
  · exact .throw _

/-- A feature is linked or fails, and never ends the pass. -/
theorem linkFeature_returns (r : Ref Feature) (w : LinkingWork) :
    ∃ success w', (linkFeature (some (.feature r))).run w = (.ok success, w') ∧
      w.toWork.Later w'.toWork := by
  have hw := linkScenarios_discreet (some (.feature r)) w
  have hrun : (linkFeature (some (.feature r))).run w = linkFeature (some (.feature r)) w := rfl
  rw [hrun, linkFeature]
  rcases hresult : (linkScenarios (some (.feature r))).run w with ⟨fault | _, w'⟩
  all_goals
    rw [hresult] at hw
  · exact ⟨false, _, rfl, hw.trans (.warn _ (List.forall_mem_singleton.mpr rfl))⟩
  · exact ⟨true, w', rfl, hw⟩

theorem linkAnew_returns (w : LinkingWork) :
    ∃ report w', linkAnew.run w = (.ok report, w') ∧ w.toWork.Later w'.toWork := by
  have hloop : ∃ w', (w.store.allFeatures.forM fun r => do
      let _ ← linkFeature (some (.feature r)) : Linking Unit).run w = (.ok (), w') ∧
        w.toWork.Later w'.toWork := by
    refine Action.run_forM (fun _ (w' : LinkingWork) => w.toWork.Later w'.toWork) _ ?_ (.refl _)
    intro done r rest w₁ hsplit h₁
    obtain ⟨success, w₂, hrun, h₂⟩ := linkFeature_returns r w₁
    refine ⟨w₂, ?_, h₁.trans h₂⟩
    rw [Action.run_bind_ok hrun]
    rfl
  obtain ⟨w', hrun, hlater⟩ := hloop
  have hget : linkAnew.run w = (do
      w.store.allFeatures.forM fun r => do
        let _ ← linkFeature (some (.feature r))
      let unused := unusedDefinitions (← get).store
      tell fun r => { r with unusedDefinitions := unused }
      return (← get).pass.report : Linking LinkReport).run w := rfl
  set unused := unusedDefinitions w'.store with hunused
  refine ⟨{ w'.pass.report with unusedDefinitions := unused }, { w' with
    pass := { w'.pass with report := { w'.pass.report with unusedDefinitions := unused } } }, ?_,
    hlater⟩
  rw [hget, Action.run_bind_ok hrun]
  rfl

/-- **A pass comes to its end, whatever is registered.** -/
theorem linkAll_returns (w : Work) :
    ∃ report w', linkAll.run w = (.ok report, w') ∧ w.Later w' := by
  have hreset : w.Later { w with store := unlink w.store } := .rewire (unlink_rewired w.store)
  obtain ⟨report, w', hrun, hlater⟩ :=
    linkAnew_returns { toWork := { w with store := unlink w.store }, pass := {} }
  have hdone : run.run { toWork := w } = (.ok report, w') := by
    rw [run_eq, Action.run_bind_ok (reset_run _)]
    exact hrun
  exact ⟨report, w'.toWork, linkAll_run hdone, hreset.trans hlater⟩

end LinkingPass

/-! ## Runs -/

namespace Run

/-- The manifest of the run can be read: it is never refused. -/
def ManifestReadable (run : Run) (tree : FileTree) : Prop :=
  ∀ w, ∃ w', (run.registerManifest tree).run w = (.ok (), w')

/-- The names by which a run knows its feature files. -/
def files (run : Run) (tree : FileTree) : List String :=
  (tree.featureFiles run.features).map fun path => (fileOf tree run.features path).toString

/-- What a run is about, feature files apart, gives no reason to refuse anything. -/
structure Unobjectionable (run : Run) (tree : FileTree) : Prop where
  manifest : run.ManifestReadable tree
  excluded : ∃ names, run.settings.excluded = .ok names
  readMes : ∀ path ∈ tree.featureFiles run.features, (Batch.readMeOf tree path).Readable
  /-- No feature file is known by a name that looks like that of a tag. -/
  not_isTag : ∀ file ∈ run.files tree, ¬ IsTag file

namespace Unobjectionable

variable {run : Run} {tree : FileTree}

theorem excludedBy (h : run.Unobjectionable tree) :
    run.settings.excluded = .ok (Batch.excludedBy run.settings) := by
  obtain ⟨names, hnames⟩ := h.excluded
  rw [Batch.excludedBy, hnames]

theorem buildable (h : run.Unobjectionable tree) :
    ∀ path ∈ tree.featureFiles run.features,
      Batch.Buildable tree (some (base tree run.features)) path := fun path hpath =>
  ⟨h.readMes path hpath, fileOf_ending hpath,
    h.not_isTag _ (List.mem_map.mpr ⟨path, hpath, rfl⟩)⟩

end Unobjectionable

variable {run : Run} {tree : FileTree}

/-- A run is a batch on an empty store, and what comes after it. -/
theorem perform_run (run : Run) (tree : FileTree) (w : Work) : (run.perform tree).run w = (do
    let batch ← Batch.build tree run.settings (some (base tree run.features))
      (Batch.sourcesOf tree (tree.featureFiles run.features))
    run.registerManifest tree
    let report ← LinkingPass.linkAll
    return { batch, report } : Job RunResult).run { w with store := w.store.clear } :=
  rfl

/-- Reading a file comes to its end if and only if it does not come upon bytes that are no text. -/
theorem readDocument_returns_iff (tree : FileTree) (path : Path) (w : Work) :
    (∃ document w', (readDocument tree path).run w = (.ok document, w')) ↔
      ¬ Undecodable tree path := by
  constructor
  · rintro ⟨document, w', hrun⟩ hundecodable
    rw [readDocument_undecodable hundecodable] at hrun
    cases hrun
  · exact fun htext => ⟨_, _, readDocument_run htext w⟩

/-- **One broken feature file does not stop a run, unless its bytes are no text.**  A run comes to
its end if and only if each feature file can be read or is passed over, which is so if and only if
they all hold texts.  Then it has warned once of each file that cannot be used, and of no other, and
has dealt out all files to the features and the skipped. -/
theorem perform_returns_iff (h : run.Unobjectionable tree) (w : Work) :
    (∀ path, (∃ document w', (readDocument tree path).run w = (.ok document, w')) ↔
      ¬ Undecodable tree path) ∧
    ((∃ result w', (run.perform tree).run w = (.ok result, w')) ↔
      ∀ path ∈ tree.featureFiles run.features, ¬ Undecodable tree path) ∧
    ((∃ path ∈ tree.featureFiles run.features, Undecodable tree path) →
      ((run.perform tree).run w).1 = .error .undecodable) ∧
    ∀ result w', (run.perform tree).run w = (.ok result, w') →
      (run.files tree).Perm
        ((result.batch.features.map fun r => (w'.store.get r).id) ++ result.batch.skipped) ∧
      w'.warnings.filter Warning.isOfFile = w.warnings.filter Warning.isOfFile ++
        (tree.featureFiles run.features).filterMap (complaint? tree) := by
  have hclear : ({ w with store := w.store.clear } : Work).store.Receptive w.store [] := .clear w.store
  -- with texts only
  have hreturns : (∀ path ∈ tree.featureFiles run.features, ¬ Undecodable tree path) →
      ∃ result w', (run.perform tree).run w = (.ok result, w') ∧
        (run.files tree).Perm
          ((result.batch.features.map fun r => (w'.store.get r).id) ++ result.batch.skipped) ∧
        w'.warnings.filter Warning.isOfFile = w.warnings.filter Warning.isOfFile ++
          (tree.featureFiles run.features).filterMap (complaint? tree) := by
    intro htexts
    obtain ⟨batch, w₁, hbatch, -, hdealt, hwarnings⟩ :=
      Batch.build_returns h.excludedBy h.buildable htexts hclear
    obtain ⟨w₂, hmanifest⟩ := h.manifest w₁
    obtain ⟨report, w₃, hlinks, hlater⟩ := linkAll_returns w₂
    have hafter : w₁.Later w₃ := by
      have hlater₁ := run.registerManifest_discreet tree w₁
      rw [hmanifest] at hlater₁
      exact hlater₁.trans hlater
    refine ⟨{ batch, report }, w₃, ?_, ?_, ?_⟩
    · rw [perform_run, Action.run_bind_ok hbatch, Action.run_bind_ok hmanifest,
        Action.run_bind_ok hlinks]
      rfl
    · refine (hdealt.imp fun r file hr => ?_).perm
      obtain ⟨hhas, hid⟩ := hr
      exact (hafter.feature r hhas).2.trans hid
    · have hcomplaints : ((tree.featureFiles run.features).filterMap (complaint? tree)).filter
          Warning.isOfFile = (tree.featureFiles run.features).filterMap (complaint? tree) := by
        refine List.filter_eq_self.mpr fun x hx => ?_
        obtain ⟨path, -, hpath⟩ := List.mem_filterMap.mp hx
        unfold complaint? at hpath
        split at hpath
        · cases hpath
        · cases hpath
          rfl
      rw [hafter.warnings, hwarnings, List.filter_append, hcomplaints]
  have hrefused : (∃ path ∈ tree.featureFiles run.features, Undecodable tree path) →
      ((run.perform tree).run w).1 = .error .undecodable := by
    intro hsome
    obtain ⟨w', hbatch⟩ := Batch.build_undecodable h.excludedBy h.buildable hsome hclear
    rw [perform_run, Action.run_bind_error hbatch]
  refine ⟨fun path => readDocument_returns_iff tree path w, ⟨?_, fun htexts => ?_⟩, hrefused, ?_⟩
  · rintro ⟨result, w', hrun⟩ path hpath hundecodable
    have herror := hrefused ⟨path, hpath, hundecodable⟩
    rw [hrun] at herror
    cases herror
  · obtain ⟨result, w', hrun, -⟩ := hreturns htexts
    exact ⟨result, w', hrun⟩
  · intro result w' hrun
    have htexts : ∀ path ∈ tree.featureFiles run.features, ¬ Undecodable tree path := by
      intro path hpath hundecodable
      have herror := hrefused ⟨path, hpath, hundecodable⟩
      rw [hrun] at herror
      cases herror
    obtain ⟨result', w'', hrun', hdone⟩ := hreturns htexts
    rw [hrun] at hrun'
    cases hrun'
    exact hdone

/-- A shed with a feature file that is no feature text, and one with or without a text. -/
private def shed (text : Option String) : FileTree where
  nodes := ⟨[(["features"], .directory), (["features", "broken.feature"], .file (some "Rake")),
    (["features", "seeds.feature"], .file text)]⟩
  workingDirectory := .ofString "/"

private def shedRun : Run where
  features := .ofString "features"
  manifest := none

private def shedFiles : List Path :=
  [.ofString "features/broken.feature", .ofString "features/seeds.feature"]

private theorem featureFiles_shed (text : Option String) :
    (shed text).featureFiles shedRun.features = shedFiles := by
  have hfound : (shed text).featureFiles shedRun.features = shedFiles.mergeSort Path.le := by rfl
  rw [hfound, List.mergeSort_of_pairwise]
  decide

private theorem files_shed (text : Option String) :
    shedRun.files (shed text) = ["features/broken.feature", "features/seeds.feature"] := by
  rw [files, featureFiles_shed]
  rfl

private theorem unobjectionable_shed (text : Option String) : shedRun.Unobjectionable (shed text) where
  manifest := fun w => ⟨w, rfl⟩
  excluded := ⟨[], rfl⟩
  readMes := by
    rw [featureFiles_shed]
    have hnone : ∀ path ∈ shedFiles, Batch.readMeOf (shed text) path = none := by
      intro path hpath
      simp only [shedFiles, List.mem_cons, List.not_mem_nil, or_false] at hpath
      rcases hpath with rfl | rfl <;> rfl
    intro path hpath
    rw [hnone path hpath]
    exact nofun
  not_isTag := by
    rw [files_shed]
    unfold IsTag
    decide

/-- With texts in all files the run of the shed comes to its end. -/
theorem perform_returns_iff_shed : shedRun.Unobjectionable (shed (some "Feature: Seeds")) ∧
    ∃ result w', (shedRun.perform (shed (some "Feature: Seeds"))).run { store := {} } =
        (.ok result, w') ∧
      ["features/broken.feature", "features/seeds.feature"].Perm
        ((result.batch.features.map fun r => (w'.store.get r).id) ++ result.batch.skipped) ∧
      (w'.warnings.filter Warning.isOfFile).length = 1 := by
  obtain ⟨-, hreturns, -, hdone⟩ :=
    perform_returns_iff (unobjectionable_shed (some "Feature: Seeds")) { store := {} }
  obtain ⟨result, w', hrun⟩ := hreturns.mpr (by rw [featureFiles_shed]; decide +kernel)
  obtain ⟨hperm, hwarnings⟩ := hdone result w' hrun
  rw [files_shed] at hperm
  rw [featureFiles_shed] at hwarnings
  refine ⟨unobjectionable_shed _, result, w', hrun, hperm, ?_⟩
  rw [hwarnings]
  decide +kernel

/-- **A feature file that holds no text stops a run**, and the files before it with it. -/
theorem undecodable_stops : ¬ ∀ (run : Run) (tree : FileTree), run.Unobjectionable tree →
    ∀ w, ∃ result w', (run.perform tree).run w = (.ok result, w') := by
  intro hreturns
  obtain ⟨result, w', hrun⟩ := hreturns shedRun (shed none) (unobjectionable_shed none) { store := {} }
  have hrefused : ((shedRun.perform (shed none)).run { store := {} }).1.isOk = false := by
    rw [perform_run, featureFiles_shed]
    decide +kernel
  rw [hrun] at hrefused
  cases hrefused

end Run

end StepTrace
