import StepTrace.Project.Run
import StepTrace.Proofs.Registry.Wellformed
import StepTrace.Proofs.Rollback.Kept

/-!
# What a batch leaves behind

A document of a batch is built, or gives no feature, or is malformed; in the last case the registry
goes back to what it was (`Outcome`).  Whichever it is, all that was registered stays, and the
registered features are those of before and the one that was built: so every registered feature is
placed, counted and listed by its namespace after the whole batch (`Sound`).

A batch that comes to its end is a chain of such outcomes (`Outcomes`), which carries whatever else
one wants to know of the registry from document to document.
-/

namespace StepTrace

open Store

/-! ## Features that stay as they are -/

namespace Store

variable {s₀ s s' : Store} {r : Ref Feature} {id : String}

theorem Steady.get_examples (h : Steady s s') {e : Ref Examples} (he : s.Has (.examples e)) :
    s'.get e = s.get e :=
  Content.examples.inj (h _ he trivial).2

theorem Steady.counted (h : Steady s s') (hr : s.FeatureFormed r id) (hcounted : Build.Counted s r) :
    Build.Counted s' r := by
  have hsame := h.get_feature hr.formed.has
  have houtline : ∀ {o}, .outline o ∈ (s.get r).scenarios → ∃ i, s.OutlineFormed o i := by
    intro o ho
    obtain ⟨i, hi⟩ := hr.containers.exists_of_mem ho
    exact ⟨_, hi⟩
  constructor
  · have hruns : ∀ c ∈ (s.get r).scenarios, Build.runs s' c = Build.runs s c := by
      intro c hc
      cases c with
      | scenario x => rfl
      | outline o =>
          obtain ⟨i, ho⟩ := houtline hc
          exact congrArg Outline.scenarios (h.get_outline ho.formed.has)
    rw [hsame, hcounted.total, Build.executableScenarios_eq, Build.executableScenarios_eq,
      List.flatMap_congr hruns]
  · intro o ho
    rw [hsame] at ho
    obtain ⟨i, hformed⟩ := houtline ho
    refine Build.exploded_of_same (hcounted.exploded o ho) (h.get_outline hformed.formed.has) ?_
    intro e he
    obtain ⟨j, hj⟩ := hformed.examples.exists_of_mem he
    exact h.get_examples hj.has

theorem Kept.steady (h : Kept s₀ s) : Steady s₀ s :=
  fun e he hkind => ⟨h.has he, by rw [h.content he hkind.ne_tag hkind.ne_nameSpace]⟩

/-- A namespace that has gone on lists what it listed. -/
theorem Kept.housed (h : Kept s₀ s) (hc : s.catalog.Consistent) (hr : s₀.Has (.feature r))
    (hhoused : s₀.Housed r) : s.Housed r := by
  obtain ⟨n, hn, hlisted⟩ := hhoused
  have hsame := h.steady.get_feature hr
  refine ⟨n, ?_, ?_⟩
  · rw [hsame]
    exact h.find? hc hn
  · have hback := congrArg Namespace.featureIds (h.nameSpace hn)
    rw [hsame]
    rw [← hback] at hlisted
    exact List.mem_of_mem_take hlisted

/-- No part of a file is registered if its feature is not. -/
theorem Orderly.isNew (h : Orderly PlainName False s) {file : String} (hfile : PlainName file)
    (hnone : ∀ r, s.catalog.find? file ≠ some (.feature r)) : file ∉ s.catalog.ids := by
  intro hid
  obtain ⟨e, he⟩ := Catalog.mem_ids_iff.mp hid
  have hplain := hfile.featureFile
  have hpart : ¬ e.kind.IsPart := by
    intro hkind
    obtain ⟨file', r, hfile', hunder, hr⟩ := h.owned he hkind
    have hsame := hfile'.featureFile.eq_of_under hplain hunder (.refl _)
    exact hnone r (hsame ▸ hr)
  have hfits := h.fits he
  cases e with
  | feature r => exact hnone r he
  | nameSpace => exact hplain.not_isDirectory (.refl _) hfits
  | tag => exact hplain.not_isTag hfile.not_isTag (.refl _) hfits
  | scenario | outline | examples | step => exact hpart trivial
  | definition | transform => exact hfits.elim

/-! ## Restored registries -/

theorem Restored.refl (s : Store) : Restored s s :=
  ⟨rfl, fun _ => rfl, id, fun _ => rfl, fun _ _ _ => rfl⟩

theorem Restored.kept (h : Restored s₀ s) (hc : s₀.catalog.Consistent) : Kept s₀ s where
  has := h.has
  content := h.content
  tag := by
    intro id t ht
    have hget : s.get t = s₀.get t := get_eq_of_content_eq (h.registered ht)
    rw [hget, Tag.backTo_mark]
  nameSpace := by
    intro id n hn
    have hget : s.get n = s₀.get n := get_eq_of_content_eq (h.registered hn)
    rw [hget, Namespace.backTo_mark]
  entries := by
    rw [h.entries]
    exact (Kept.refl hc).entries
  index kind := by
    rw [h.index]
    exact (Kept.refl hc).index kind

theorem Restored.orderly (h : Restored s₀ s) (hs₀ : Orderly PlainName False s₀) (hs : Pure s) :
    Orderly PlainName False s := by
  have hpreserves : s₀.Preserves s := by
    refine ⟨fun he _ => by rwa [h.find?], fun he _ => h.has (hs₀.labelled he).has, fun he _ => ?_⟩
    rw [h.registered he]
  refine ⟨hs, ?_, ?_⟩
  · intro id e he hpart
    rw [h.find?] at he
    obtain ⟨file, r, hfile, hunder, hr⟩ := hs₀.owned he hpart
    exact ⟨file, r, hfile, hunder, by rwa [h.find?]⟩
  · intro id r hr
    rw [h.find?] at hr
    exact hpreserves.featurePlaced (hs₀.placed hr)

end Store

namespace Batch

/-! ## Sound registries -/

/-- The registry is orderly, and its features are placed, counted and listed; they are of files with
the given names. -/
structure Sound (names : List String) (s : Store) : Prop where
  orderly : Orderly PlainName False s
  named : ∀ {id r}, s.catalog.find? id = some (.feature r) → id ∈ names
  counted : ∀ {id r}, s.catalog.find? id = some (.feature r) → Build.Counted s r
  housed : ∀ {id r}, s.catalog.find? id = some (.feature r) → s.Housed r

variable {names : List String} {s s' : Store}

theorem sound_empty : Sound [] {} :=
  ⟨orderly_empty, nofun, nofun, nofun⟩

/-- No part of a file is registered if the file has not been built. -/
theorem Sound.isNew (h : Sound names s) {file : String} (hfile : PlainName file)
    (hnew : file ∉ names) : file ∉ s.catalog.ids :=
  h.orderly.isNew hfile fun _ hr => hnew (h.named hr)

/-- All that was registered has stayed, and no feature has come in but the given one. -/
theorem Sound.kept (h : Sound names s) (hkept : Kept s s') (horderly : Orderly PlainName False s')
    {file : String} (hfeatures : ∀ {id r}, s'.catalog.find? id = some (.feature r) →
      s.catalog.find? id = some (.feature r) ∨
        id = file ∧ Build.Counted s' r ∧ s'.Housed r) : Sound (file :: names) s' := by
  constructor
  case orderly => exact horderly
  case named =>
    intro id r hr
    rcases hfeatures hr with hold | ⟨rfl, -⟩
    · exact List.mem_cons_of_mem _ (h.named hold)
    · exact List.mem_cons_self ..
  case counted =>
    intro id r hr
    rcases hfeatures hr with hold | ⟨-, hcounted, -⟩
    · exact hkept.steady.counted (h.orderly.placed hold).formed (h.counted hold)
    · exact hcounted
  case housed =>
    intro id r hr
    rcases hfeatures hr with hold | ⟨-, -, hhoused⟩
    · exact hkept.housed horderly.consistent (h.orderly.labelled hold).has (h.housed hold)
    · exact hhoused

/-- A registry that was restored is sound, whatever has been tried. -/
theorem Sound.restored (h : Sound names s) (hback : Restored s s') (hpure : Pure s') (file : String) :
    Sound (file :: names) s' := by
  have hkept := hback.kept h.orderly.consistent
  refine h.kept hkept (hback.orderly h.orderly hpure) fun hr => Or.inl ?_
  rwa [hback.find?] at hr

/-! ## One document -/

/-- What one document leaves of the registry, if the batch goes on. -/
inductive Outcome (call : BuildCall) (s : Store) : Option (Ref Feature) → Store → Prop
  | built {r : Ref Feature} {s' : Store}
      (h : (Build.feature call.file call.content call.excluded call.readMe).run s =
        (.ok (some r), s')) : Outcome call s (some r) s'
  | passed {s' : Store}
      (h : (Build.feature call.file call.content call.excluded call.readMe).run s =
        (.ok none, s')) : Outcome call s none s'
  | undone {s' : Store} (h : Restored s s') (hpure : Pure s') : Outcome call s none s'

/-- The registered features of `s'` are those of `s` and the given one, which is of the file. -/
def Gains (file : String) (result : Option (Ref Feature)) (s s' : Store) : Prop :=
  ∀ id r, s'.catalog.find? id = some (.feature r) ↔
    s.catalog.find? id = some (.feature r) ∨ id = file ∧ result = some r

variable {call : BuildCall} {result : Option (Ref Feature)}

theorem gains_site (hsite : Build.SiteBuilt s s') {file : String}
    (hkept : ∀ {id r}, s.catalog.find? id = some (.feature r) →
      s'.catalog.find? id = some (.feature r)) : Gains file none s s' := by
  refine fun id r => ⟨fun hr => Or.inl ?_, fun hr => ?_⟩
  · rcases hsite.grows.catalog.find?_cases hr with hold | ⟨-, hkind, -⟩ | ⟨-, hkind, -⟩
    · exact hold
    · cases hkind
    · cases hkind
  · rcases hr with hold | ⟨-, hnone⟩
    · exact hkept hold
    · cases hnone

/-- A built feature has come in under the name of its file. -/
theorem gains_built {file : Path} {r : Ref Feature} (hdone : Build.FeatureDone file r s s')
    (hkept : ∀ {id r}, s.catalog.find? id = some (.feature r) →
      s'.catalog.find? id = some (.feature r)) : Gains file.toString (some r) s s' := by
  obtain ⟨s₁, hsite, hbuilt⟩ := hdone.built
  have hfind := hdone.placed.placed.find?
  refine fun id r' => ⟨fun hr' => ?_, fun hr' => ?_⟩
  · rcases hbuilt.grows.catalog.find?_cases hr' with hold | hnew | ⟨-, hkind, -⟩
    · rcases hsite.grows.catalog.find?_cases hold with hold | ⟨-, hkind, -⟩ | ⟨-, hkind, -⟩
      · exact Or.inl hold
      · cases hkind
      · cases hkind
    · rcases hnew with ⟨rfl, -⟩ | ⟨⟨-, hpart⟩, -⟩
      · rw [hfind] at hr'
        cases hr'
        exact Or.inr ⟨rfl, rfl⟩
      · exact hpart.elim
    · cases hkind
  · rcases hr' with hold | ⟨rfl, hsome⟩
    · exact hkept hold
    · cases hsome
      exact hfind

/-- **One document keeps the registry sound**, all that was registered included. -/
theorem Sound.outcome (h : Sound names s) (hfile : PlainPath call.file)
    (hnew : call.file.toString ∉ names) (hout : Outcome call s result s') :
    Sound (call.file.toString :: names) s' ∧ Kept s s' ∧
      Gains call.file.toString result s s' := by
  have hname : PlainName call.file.toString := ⟨_, hfile, rfl⟩
  have hfiles : ∀ file, PlainName file → FeatureFile file := fun _ => PlainName.featureFile
  have hc := h.orderly.consistent
  obtain ⟨hleft, hdone⟩ := Build.feature_built h.orderly.toSorted hfiles hfile.toFeaturePath
    call.content call.excluded call.readMe
  have hkept : ∀ {s'}, Build.FeatureLeft call.file.toString s s' →
      Kept s s' ∧ Orderly PlainName False s' := fun hleft =>
    ⟨(Kept.refl hc).featureLeft h.orderly h.orderly.toSorted hname (h.isNew hname hnew) hleft,
      h.orderly.featureLeft hfiles hname hleft⟩
  cases hout with
  | built hrun =>
      rename_i r
      rw [hrun] at hleft hdone
      obtain ⟨hkept', horderly⟩ := hkept hleft
      obtain ⟨hfeature, -⟩ := hdone (some r) rfl
      have hgains := gains_built hfeature fun hr => hkept'.find? horderly.consistent hr
      refine ⟨h.kept hkept' horderly fun hr => ?_, hkept', hgains⟩
      rcases (hgains _ _).mp hr with hold | ⟨rfl, hsome⟩
      · exact Or.inl hold
      · cases hsome
        exact Or.inr ⟨rfl, hfeature.counted, hfeature.housed⟩
  | passed hrun =>
      rw [hrun] at hleft hdone
      obtain ⟨hkept', horderly⟩ := hkept hleft
      have hgains : Gains call.file.toString none s s' := gains_site (hdone none rfl) fun hr =>
        hkept'.find? horderly.consistent hr
      refine ⟨h.kept hkept' horderly fun hr => ?_, hkept', hgains⟩
      rcases (hgains _ _).mp hr with hold | ⟨-, hnone⟩
      · exact Or.inl hold
      · cases hnone
  | undone hrestored hpure =>
      refine ⟨h.restored hrestored hpure _, hrestored.kept hc, fun id r => ?_⟩
      rw [hrestored.find?]
      simp

/-- The names that settings exclude, if they can be read. -/
def excludedBy (settings : Settings) : List String :=
  match settings.excluded with
  | .ok names => names
  | .error _ => []

/-- The build of a document in a batch, before anything is undone. -/
def buildDocument (tree : FileTree) (settings : Settings) (file path : Path) (content : Value) :
    Build (Option (Ref Feature)) := do
  let excluded ← Build.check settings.excluded
  Build.feature file content excluded (readMeOf tree path)

section

variable {tree : FileTree} {settings : Settings} {file path : Path} {content : Value} {w w' : Work}
variable {fault : Fault} {s₁ : Store}

theorem buildDocument_eq (hexcluded : settings.excluded = .ok (excludedBy settings)) :
    buildDocument tree settings file path content =
      Build.feature file content (excludedBy settings) (readMeOf tree path) := by
  unfold buildDocument
  rw [hexcluded]
  rfl

/-- Without settings that can be read there is nothing that could be built. -/
theorem buildDocument_run_error (hexcluded : settings.excluded = .error fault) (s : Store) :
    (buildDocument tree settings file path content).run s = (.error fault, s) := by
  unfold buildDocument
  rw [hexcluded]
  rfl

theorem excludedBy_cases (settings : Settings) :
    settings.excluded = .ok (excludedBy settings) ∨ ∃ fault, settings.excluded = .error fault := by
  unfold excludedBy
  cases settings.excluded with
  | ok names => exact Or.inl rfl
  | error fault => exact Or.inr ⟨fault, rfl⟩

theorem buildDocument_ok
    (hbuild : (buildDocument tree settings file path content).run s = (.ok result, s₁)) :
    (Build.feature file content (excludedBy settings) (readMeOf tree path)).run s =
      (.ok result, s₁) := by
  rcases excludedBy_cases settings with hexcluded | ⟨fault, hexcluded⟩
  · rwa [buildDocument_eq hexcluded] at hbuild
  · rw [buildDocument_run_error hexcluded] at hbuild
    cases hbuild

/-- What is undone, and what ends the batch. -/
theorem buildOne_run (tree : FileTree) (settings : Settings) (file path : Path) (content : Value)
    (w : Work) : (buildOne tree settings file path content).run w =
      match (buildDocument tree settings file path content).run w.store with
      | (.ok feature, s) => (.ok feature, { w with store := s })
      | (.error fault, s) => (if isLocal fault then do
          Job.warn [.unbuiltFile file.toString fault]
          Job.build w.store.snapshot.rollback
          return none
        else throw fault : Job (Option (Ref Feature))).run { w with store := s } := by
  have hfold : (do
      let excluded ← Build.check settings.excluded
      Build.feature file content excluded (readMeOf tree path)) =
        buildDocument tree settings file path content := rfl
  rw [buildOne, Action.run_bind_ok (Job.store_run w), hfold]
  dsimp only
  rw [Action.run_bind_ok (Job.attempt_run _ w)]
  rcases (buildDocument tree settings file path content).run w.store with ⟨_ | _, s⟩ <;> rfl

/-- A build that is refused for its document is taken back to the snapshot. -/
theorem buildOne_rolledBack (h : Pure w.store) (hpure : Pure s₁)
    (hbuild : (buildDocument tree settings file path content).run w.store = (.error fault, s₁))
    (hlocal : isLocal fault) : ∃ w', (buildOne tree settings file path content).run w =
      (.ok none, w') ∧ w.store.snapshot.RolledBack s₁ w'.store := by
  obtain ⟨s₂, hback, hrolled⟩ := Snapshot.rollback_run hpure.consistent hpure.labelled
    ((Pure.snapshot_valid h).covers hpure)
  refine ⟨⟨s₂, w.warnings ++ [.unbuiltFile file.toString fault]⟩, ?_, hrolled⟩
  rw [buildOne_run, hbuild]
  dsimp only
  rw [if_pos hlocal, Action.run_bind_ok (Job.warn_run _ _), Action.run_bind, Job.build_run, hback]
  rfl

/-- **A build that is refused for its document leaves the registry as it was.** -/
theorem buildOne_undone (h : Orderly PlainName False w.store) (hfile : PlainPath file)
    (hfree : file.toString ∉ w.store.catalog.ids)
    (hbuild : (buildDocument tree settings file path content).run w.store = (.error fault, s₁))
    (hlocal : isLocal fault) :
    ∃ w', (buildOne tree settings file path content).run w = (.ok none, w') ∧
      Restored w.store w'.store ∧ Pure w'.store := by
  have hpure := h.toSorted
  have hname : PlainName file.toString := ⟨_, hfile, rfl⟩
  -- what the build leaves can be undone
  have hleft : Kept w.store s₁ ∧ Pure s₁ := by
    rcases excludedBy_cases settings with hexcluded | ⟨fault', hexcluded⟩
    · rw [buildDocument_eq hexcluded] at hbuild
      have hleft := (Build.feature_built hpure (fun _ => PlainName.featureFile)
        hfile.toFeaturePath content (excludedBy settings) (readMeOf tree path)).1
      rw [hbuild] at hleft
      exact ⟨(Kept.refl hpure.consistent).featureLeft h hpure hname hfree hleft,
        hpure.featureLeft (fun _ => PlainName.featureFile) hname hleft⟩
    · rw [buildDocument_run_error hexcluded] at hbuild
      cases hbuild
      exact ⟨.refl hpure.consistent, hpure⟩
  obtain ⟨hkept, hpure₁⟩ := hleft
  obtain ⟨w', hrun, hrolled⟩ := buildOne_rolledBack hpure hpure₁ hbuild hlocal
  exact ⟨w', hrun, hkept.restored hpure hpure₁ hrolled,
    Pure.rolledBack hrolled hpure₁ (Pure.snapshot_valid hpure)⟩

/-- **A build that is refused leaves the registry as it was, or ends the batch.** -/
theorem buildOne_refused (h : Sound names w.store) (hfile : PlainPath file)
    (hnew : file.toString ∉ names)
    (hbuild : (buildDocument tree settings file path content).run w.store = (.error fault, s₁))
    (hrun : (buildOne tree settings file path content).run w = (.ok result, w')) :
    result = none ∧ Restored w.store w'.store ∧ Pure w'.store := by
  by_cases hlocal : isLocal fault
  · obtain ⟨w₁, hrun₁, hrestored⟩ := buildOne_undone h.orderly hfile
      (h.isNew ⟨_, hfile, rfl⟩ hnew) hbuild hlocal
    rw [hrun] at hrun₁
    cases hrun₁
    exact ⟨rfl, hrestored⟩
  · rw [buildOne_run, hbuild] at hrun
    dsimp only at hrun
    rw [if_neg hlocal] at hrun
    cases hrun

/-- **The build of one document in a batch has one of these outcomes, if the batch goes on.** -/
theorem buildOne_outcome (h : Sound names w.store) (hfile : PlainPath file)
    (hnew : file.toString ∉ names)
    (hrun : (buildOne tree settings file path content).run w = (.ok result, w')) :
    Outcome ⟨file, content, excludedBy settings, readMeOf tree path⟩ w.store result w'.store := by
  rcases hbuild : (buildDocument tree settings file path content).run w.store with
    ⟨fault | feature, s₁⟩
  · obtain ⟨rfl, hrestored, hpure⟩ := buildOne_refused h hfile hnew hbuild hrun
    exact .undone hrestored hpure
  · have hdone := buildDocument_ok hbuild
    rw [buildOne_run, hbuild] at hrun
    cases hrun
    cases result with
    | none => exact .passed hdone
    | some r => exact .built hdone

end

/-! ## The whole batch -/

end Batch

/-- If the source gives a document, it is this one, and the registry stays as it is. -/
def Source.Reads (source : Source) (content : Option Value) : Prop :=
  ∀ w c w', source.document.run w = (.ok c, w') → c = content ∧ w'.store = w.store

/-- The document that is read from a feature file, if the file can be used. -/
def Run.documentOf (tree : FileTree) (path : Path) : Option Value :=
  match tree.readText path >>= Gherkin.readFrom tree with
  | .ok document => some document.toValue
  | .error _ => none

theorem Run.readDocument_reads (tree : FileTree) (path : Path) :
    Source.Reads ⟨path, readDocument tree path⟩ (documentOf tree path) := by
  intro w c w' hrun
  dsimp only at hrun
  unfold readDocument at hrun
  unfold documentOf
  cases hread : tree.readText path >>= Gherkin.readFrom tree with
  | ok document =>
      rw [hread] at hrun
      cases hrun
      exact ⟨rfl, rfl⟩
  | error fault =>
      rw [hread] at hrun
      dsimp only at hrun
      split at hrun
      · cases hrun
        exact ⟨rfl, rfl⟩
      · cases hrun

/-- The sources of a run read the documents of its files. -/
theorem Run.sources_read (tree : FileTree) (features : Path) :
    List.Forall₂ Source.Reads (sources tree features)
      ((tree.featureFiles features).map (documentOf tree)) := by
  unfold sources
  generalize tree.featureFiles features = paths
  induction paths with
  | nil => exact .nil
  | cons path paths ih => exact .cons (readDocument_reads tree path) ih

namespace Batch

variable {names : List String} {s s' : Store}

/-- The call that builds the document of a source. -/
def callFor (tree : FileTree) (settings : Settings) (base : Option Path) (source : Source)
    (content : Option Value) : BuildCall where
  file := knownAs base source.path
  content := content.getD .null
  excluded := excludedBy settings
  readMe := readMeOf tree source.path

/-- The calls of a batch one after the other, and the features that they have built. -/
inductive Outcomes : List BuildCall → Store → List (Ref Feature × BuildCall) → Store → Prop
  | nil (s : Store) : Outcomes [] s [] s
  | cons {call : BuildCall} {calls : List BuildCall} {result : Option (Ref Feature)}
      {s s₁ s' : Store} {built : List (Ref Feature × BuildCall)} (hout : Outcome call s result s₁)
      (hrest : Outcomes calls s₁ built s') :
      Outcomes (call :: calls) s (result.toList.map (·, call) ++ built) s'

/-- The calls build files that have not been built, each once. -/
structure Fresh (names : List String) (calls : List BuildCall) : Prop where
  plain : ∀ call ∈ calls, PlainPath call.file
  nodup : (calls.map fun call => call.file.toString).Nodup
  new : ∀ call ∈ calls, call.file.toString ∉ names

theorem Fresh.tail {call : BuildCall} {calls : List BuildCall} (h : Fresh names (call :: calls)) :
    Fresh (call.file.toString :: names) calls where
  plain other hother := h.plain other (List.mem_cons_of_mem _ hother)
  nodup := (List.nodup_cons.mp h.nodup).2
  new other hother := by
    intro hmem
    rcases List.mem_cons.mp hmem with heq | hmem
    · exact (List.nodup_cons.mp h.nodup).1 (List.mem_map.mpr ⟨other, hother, heq⟩)
    · exact h.new other (List.mem_cons_of_mem _ hother) hmem

/-- Builds what was read from a source, if it gave a document. -/
def buildRead (tree : FileTree) (settings : Settings) (base : Option Path) (source : Source) :
    Option Value → Job (Option (Ref Feature))
  | some content => buildOne tree settings (knownAs base source.path) source.path content
  | none => pure none

/-- The batch with the result for one more file in front. -/
def record (batch : Batch) (file : String) : Option (Ref Feature) → Batch
  | some r => { batch with features := r :: batch.features }
  | none => { batch with skipped := file :: batch.skipped }

section

variable {tree : FileTree} {settings : Settings} {base : Option Path} {source : Source}
variable {sources : List Source} {contents : List (Option Value)} {c : Option Value}
variable {w w₁ w' : Work} {batch : Batch} {result : Option (Ref Feature)}

/-- What a batch does with its first source, if that can be read. -/
theorem build_cons_run (hread : source.document.run w = (.ok c, w₁)) :
    (build tree settings base (source :: sources)).run w = (do
      let result ← buildRead tree settings base source c
      let batch ← build tree settings base sources
      return batch.record (knownAs base source.path).toString result : Job Batch).run w₁ := by
  rw [build, Action.run_bind_ok hread]
  cases c with
  | none => rfl
  | some content =>
      refine congrArg (fun job : Job Batch => job.run w₁) (bind_congr fun result => ?_)
      cases result <;> rfl

theorem build_cons_ok (hrun : (build tree settings base (source :: sources)).run w =
    (.ok batch, w')) : ∃ c w₁ result w₂ rest, source.document.run w = (.ok c, w₁) ∧
      (buildRead tree settings base source c).run w₁ = (.ok result, w₂) ∧
      (build tree settings base sources).run w₂ = (.ok rest, w') ∧
      batch = rest.record (knownAs base source.path).toString result := by
  have hfirst := hrun
  rw [build] at hfirst
  obtain ⟨c, w₁, hread, -⟩ := Action.run_bind_eq_ok hfirst
  rw [build_cons_run hread] at hrun
  obtain ⟨result, w₂, hone, hrun⟩ := Action.run_bind_eq_ok hrun
  obtain ⟨rest, w₃, hrest, hend⟩ := Action.run_bind_eq_ok hrun
  cases hend
  exact ⟨c, w₁, result, w₂, rest, hread, hone, hrest, rfl⟩

theorem buildRead_outcome (h : Sound names w.store) (hfile : PlainPath (knownAs base source.path))
    (hnew : (knownAs base source.path).toString ∉ names)
    (hrun : (buildRead tree settings base source c).run w = (.ok result, w')) :
    Outcome (callFor tree settings base source c) w.store result w'.store := by
  cases c with
  | none =>
      cases hrun
      exact .undone (.refl _) h.orderly.toSorted
  | some content => exact buildOne_outcome h hfile hnew hrun

/-- **A batch that comes to its end is a chain of outcomes.** -/
theorem build_outcomes (hreads : List.Forall₂ Source.Reads sources contents)
    (h : Sound names w.store)
    (hfresh : Fresh names (List.zipWith (callFor tree settings base) sources contents))
    (hrun : (build tree settings base sources).run w = (.ok batch, w')) :
    ∃ built, Outcomes (List.zipWith (callFor tree settings base) sources contents) w.store built
      w'.store ∧ batch.features = built.map (·.1) := by
  induction hreads generalizing names w w' batch with
  | nil =>
      cases hrun
      exact ⟨[], .nil _, rfl⟩
  | @cons source content sources contents hsource hreads ih =>
      set call := callFor tree settings base source content with hcall
      have hfile : PlainPath call.file := hfresh.plain call (List.mem_cons_self ..)
      have hnew : call.file.toString ∉ names := hfresh.new call (List.mem_cons_self ..)
      obtain ⟨c, w₁, result, w₂, rest, hread, hone, hrest, rfl⟩ := build_cons_ok hrun
      obtain ⟨rfl, hstore⟩ := hsource w c w₁ hread
      rw [← hstore] at h ⊢
      have hout : Outcome call w₁.store result w₂.store := buildRead_outcome h hfile hnew hone
      obtain ⟨hsound, -, -⟩ := h.outcome hfile hnew hout
      obtain ⟨built, houtcomes, hbuilt⟩ := ih hsound hfresh.tail hrest
      refine ⟨result.toList.map (·, call) ++ built, .cons hout houtcomes, ?_⟩
      cases result with
      | none => exact hbuilt
      | some r => exact congrArg (List.cons r) hbuilt

end

/-- The calls of a batch build the files by which the sources are known. -/
theorem callFor_files {tree : FileTree} {settings : Settings} {base : Option Path}
    {sources : List Source} {contents : List (Option Value)}
    (hreads : List.Forall₂ Source.Reads sources contents) :
    (List.zipWith (callFor tree settings base) sources contents).map
      (fun call => call.file.toString) =
        sources.map fun source => (knownAs base source.path).toString := by
  induction hreads with
  | nil => rfl
  | cons hsource hreads ih => exact congrArg (List.cons _) ih

/-- The files of a batch, if they are different plain ones, are fresh to the empty registry. -/
theorem fresh_calls {tree : FileTree} {settings : Settings} {base : Option Path}
    {sources : List Source} {contents : List (Option Value)}
    (hreads : List.Forall₂ Source.Reads sources contents)
    (hplain : ∀ source ∈ sources, PlainPath (knownAs base source.path))
    (hdistinct : (sources.map fun source => (knownAs base source.path).toString).Nodup) :
    Fresh [] (List.zipWith (callFor tree settings base) sources contents) := by
  refine ⟨?_, ?_, fun _ _ => List.not_mem_nil⟩
  · intro call hcall
    obtain ⟨i, hi, rfl⟩ := List.mem_iff_getElem.mp hcall
    rw [List.getElem_zipWith]
    exact hplain _ (List.getElem_mem _)
  · rwa [callFor_files hreads]

/-- **A batch keeps the registry sound, and its features are those that have come in.** -/
theorem Sound.outcomes {calls : List BuildCall} {built : List (Ref Feature × BuildCall)}
    (h : Sound names s) (hfresh : Fresh names calls) (hall : Outcomes calls s built s') :
    Sound ((calls.map fun call => call.file.toString).reverse ++ names) s' ∧
      ∀ id r, s'.catalog.find? id = some (.feature r) ↔
        s.catalog.find? id = some (.feature r) ∨
          ∃ call, (r, call) ∈ built ∧ id = call.file.toString := by
  induction hall generalizing names with
  | nil s => exact ⟨h, by simp⟩
  | @cons call calls result s s₁ s' built hout hrest ih =>
      obtain ⟨hsound, -, hgains⟩ := h.outcome (hfresh.plain call (List.mem_cons_self ..))
        (hfresh.new call (List.mem_cons_self ..)) hout
      obtain ⟨hsound', hall⟩ := ih hsound hfresh.tail
      refine ⟨by simpa using hsound', fun id r => ?_⟩
      rw [hall, hgains, or_assoc]
      refine or_congr Iff.rfl ?_
      cases result with
      | none => simp
      | some r₀ =>
          simp only [Option.some.injEq, Option.toList_some, List.map_cons, List.map_nil,
            List.cons_append, List.nil_append, List.mem_cons, Prod.mk.injEq]
          constructor
          · rintro (⟨rfl, rfl⟩ | ⟨call', hmem, rfl⟩)
            · exact ⟨call, Or.inl ⟨rfl, rfl⟩, rfl⟩
            · exact ⟨call', Or.inr hmem, rfl⟩
          · rintro ⟨call', ⟨rfl, rfl⟩ | hmem, rfl⟩
            · exact Or.inl ⟨rfl, rfl⟩
            · exact Or.inr ⟨call', hmem, rfl⟩

/-- What every outcome keeps, knowing what has been built so far, a chain of outcomes keeps. -/
theorem Outcomes.keeps {P : List (Ref Feature × BuildCall) → Store → Prop}
    (hP : ∀ {names : List String} {built : List (Ref Feature × BuildCall)} {call : BuildCall}
      {result : Option (Ref Feature)} {s s' : Store}, Sound names s → PlainPath call.file →
      call.file.toString ∉ names → Outcome call s result s' → P built s →
      P (built ++ result.toList.map (·, call)) s')
    {calls : List BuildCall} {built more : List (Ref Feature × BuildCall)} (h : P built s)
    (hsound : Sound names s) (hfresh : Fresh names calls) (hall : Outcomes calls s more s') :
    P (built ++ more) s' := by
  induction hall generalizing names built with
  | nil s => rwa [List.append_nil]
  | @cons call calls result s s₁ s' more hout hrest ih =>
      have hfile := hfresh.plain call (List.mem_cons_self ..)
      have hnew := hfresh.new call (List.mem_cons_self ..)
      rw [← List.append_assoc]
      exact ih (hP hsound hfile hnew hout h) (hsound.outcome hfile hnew hout).1 hfresh.tail

end Batch

end StepTrace
