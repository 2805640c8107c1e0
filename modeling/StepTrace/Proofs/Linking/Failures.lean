import StepTrace.Proofs.Linking.Inverse
import StepTrace.Proofs.Linking.Unsearchable
import Mathlib.Data.List.TakeWhile

/-!
# Features that fail to link

A step whose text is no text cannot be searched, and ends the linking of its feature.  The steps
before it have been linked by then, and so have those of other features: their definitions,
transforms and entries in the report are the ones of the specification, which looks at no other step
(`FailuresContained`).  So a pass leaves what it would leave without the steps that cannot be
searched, as far as it comes (`Store.reachedSteps`), and nothing on the others.

For the last it matters that no old link is left on a step that the pass does not come to.  The reset
takes them out of registered steps.  Running steps are registered if no file lies below a directory
that is called like the root namespace; wherever the files lie, there are no old links in a registry
that has been built and not linked yet (`Built`).
-/

namespace StepTrace

open Store LinkingPass Linking

namespace Store

variable {s s' : Store} {x : Ref Step} {r : Ref Feature}

/-! ## Steps before a fault -/

/-- Some definition has a pattern that can be searched for. -/
def Searches (s : Store) : Prop :=
  ∃ d ∈ s.allDefinitions, (compiled? (s.get d).pattern).isSome

instance (s : Store) : Decidable s.Searches :=
  inferInstanceAs (Decidable (∃ d ∈ _, _))

/-- What the step says is a text. -/
def hasText (s : Store) (x : Ref Step) : Bool :=
  match (s.get x).text with
  | .text _ => true
  | _ => false

/-- The steps of a feature that come before the first one that cannot be searched. -/
def stepsBeforeFault (s : Store) (r : Ref Feature) : List (Ref Step) :=
  if s.Searches then (s.featureSteps r).takeWhile s.hasText else s.featureSteps r

/-- The running steps that no fault keeps from being linked. -/
def reachedSteps (s : Store) : List (Ref Step) :=
  s.allFeatures.flatMap s.stepsBeforeFault

/-- The features with a step that cannot be searched. -/
def faultyFeatures (s : Store) : List (Ref Feature) :=
  s.allFeatures.filter fun r => s.Searches ∧ ∃ x ∈ s.featureSteps r, s.hasText x = false

theorem isEmpty_patternCache (s : Store) :
    s.patternCache.definitions.isEmpty = decide (¬s.Searches) := by
  rw [Bool.eq_iff_iff, List.isEmpty_iff, decide_eq_true_iff, patternCache,
    List.filterMap_eq_nil_iff]
  simp only [Option.map_eq_none_iff, Searches, not_exists, not_and, Option.not_isSome_iff_eq_none]

theorem searchable_eq_hasText (s : Store) (x : Ref Step) :
    s.searchable x = (decide (¬s.Searches) || s.hasText x) := by
  unfold searchable hasText
  rw [isEmpty_patternCache]
  cases (s.get x).text <;> simp

theorem stepsReached_eq (hpatterns : PatternsReadable s) (r : Ref Feature) :
    s.stepsReached r = s.stepsBeforeFault r := by
  rw [stepsReached, if_pos hpatterns, stepsBeforeFault, funext s.searchable_eq_hasText]
  split
  next hsearches => simp [hsearches]
  next hsearches =>
    rw [List.takeWhile_eq_self_iff]
    simp [hsearches]

theorem failingFeatures_eq (hpatterns : PatternsReadable s) :
    s.failingFeatures = s.faultyFeatures := by
  unfold failingFeatures faultyFeatures
  refine List.filter_congr fun r _ => ?_
  rw [reachesAll, decide_eq_true hpatterns, Bool.true_and, funext s.searchable_eq_hasText]
  by_cases hsearches : s.Searches
  · rw [Bool.eq_iff_iff]
    simp [hsearches]
  · simp [hsearches]

/-! ## Links change none of this -/

theorem mem_featureSteps (hr : r ∈ s.allFeatures) (hx : x ∈ s.featureSteps r) :
    x ∈ s.runningSteps :=
  List.mem_flatMap.mpr ⟨r, hr, hx⟩

theorem stepsBeforeFault_sublist (s : Store) (r : Ref Feature) :
    (s.stepsBeforeFault r).Sublist (s.featureSteps r) := by
  unfold stepsBeforeFault
  split
  · exact List.takeWhile_sublist _
  · exact .refl _

theorem mem_reachedSteps (hx : x ∈ s.reachedSteps) : x ∈ s.runningSteps := by
  obtain ⟨r, hr, hx⟩ := List.mem_flatMap.mp hx
  exact mem_featureSteps hr ((s.stepsBeforeFault_sublist r).subset hx)

theorem takeWhile_congr {α : Type} {p q : α → Bool} {xs : List α} (h : ∀ x ∈ xs, p x = q x) :
    xs.takeWhile p = xs.takeWhile q := by
  induction xs with
  | nil => rfl
  | cons x xs ih =>
    obtain ⟨hx, hxs⟩ := List.forall_mem_cons.mp h
    rw [List.takeWhile_cons, List.takeWhile_cons, hx, ih hxs]

section

variable (hs : s.Wellformed) (h : Rewired s s')
include hs h

theorem Rewired.searches_iff : s'.Searches ↔ s.Searches := by
  unfold Searches
  rw [h.allDefinitions_eq]
  refine exists_congr fun d => and_congr_right fun hd => ?_
  obtain ⟨id, hid⟩ := (mem_allDefinitions hs.consistent).mp hd
  rw [h.definition_pattern (hs.labelled hid).has]

theorem Rewired.hasText_eq (hx : x ∈ s.runningSteps) : s'.hasText x = s.hasText x := by
  have htext : (s'.get x).text = (s.get x).text :=
    (congrArg Step.text (h.step (hs.has_step hx)) :)
  rw [hasText, hasText, htext]

theorem Rewired.featureSteps_eq (hr : r ∈ s.allFeatures) :
    s'.featureSteps r = s.featureSteps r := by
  obtain ⟨id, -, hformed⟩ := hs.mem_allFeatures hr
  exact h.steady.containerSteps hformed

theorem Rewired.reachedSteps_eq : s'.reachedSteps = s.reachedSteps := by
  rw [reachedSteps, h.allFeatures_eq]
  refine List.flatMap_congr fun r hr => ?_
  have htexts := takeWhile_congr fun x (hx : x ∈ s.featureSteps r) =>
    h.hasText_eq hs (mem_featureSteps hr hx)
  simp only [stepsBeforeFault, h.featureSteps_eq hs hr, h.searches_iff hs, htexts]

theorem Rewired.faultyFeatures_eq : s'.faultyFeatures = s.faultyFeatures := by
  rw [faultyFeatures, h.allFeatures_eq]
  refine List.filter_congr fun r hr => ?_
  rw [h.featureSteps_eq hs hr]
  refine decide_eq_decide.mpr (and_congr (h.searches_iff hs) ?_)
  refine exists_congr fun x => and_congr_right fun hx => ?_
  rw [h.hasText_eq hs (mem_featureSteps hr hx)]

end

/-! ## What a pass leaves -/

/-- The reset leaves no links on steps that run. -/
def Clear (s : Store) : Prop :=
  ∀ x ∈ s.runningSteps, (s.resetStep x).definition = none ∧ (s.resetStep x).transforms = []

/-- Links the running steps that are texts, as if there were no others. -/
def linkTexts (s : Store) : Linking Unit := do
  let cache ← patterns
  linkSteps cache (s.runningSteps.filter s.hasText)

/-- What the registry `s'` and the report are after a pass over `s`, whatever the texts are. -/
structure FailuresContained (s s' : Store) (report : LinkReport) : Prop where
  rewired : Rewired s s'
  failed : report.failedFeatures = s.faultyFeatures.map fun r => (s.get r).id
  failedOnce : report.failedFeatures.Nodup
  linked : report.linkedSteps =
    (s.reachedSteps.filter fun x => (s.definitionOf? x).isSome).map fun x => (s.get x).id
  unmatched : report.unmatchedSteps =
    (s.reachedSteps.filter fun x => (s.definitionOf? x).isNone).map fun x => (s.get x).id
  reached : ∀ x ∈ s.reachedSteps, (s'.get x).definition = s.definitionOf? x ∧
    (s'.get x).transforms = s.transformsOf x
  others : ∀ x ∈ s.runningSteps, x ∉ s.reachedSteps →
    (s'.get x).definition = none ∧ (s'.get x).transforms = [] ∧
      (s.get x).id ∉ report.linkedSteps ∧ (s.get x).id ∉ report.unmatchedSteps
  ofDefinition : ∀ d ∈ s.allDefinitions, (s'.get d).steps = s.stepsOfDefinition s.reachedSteps d
  ofTransform : ∀ t ∈ s.allTransforms, (s'.get t).steps = s.stepsOfTransform s.reachedSteps t
  unused : report.unusedDefinitions = (s.unusedBy s.reachedSteps).map fun d => (s.get d).id
  /-- Without the steps that cannot be searched it would be the same. -/
  alike : ∃ w, (linkTexts s).run { store := unlink s } = (.ok (), w) ∧
    ∀ x ∈ s.reachedSteps, s.hasText x = true →
      (s'.get x).definition = (w.store.get x).definition ∧
      (s'.get x).transforms = (w.store.get x).transforms ∧
      ((s.get x).id ∈ report.linkedSteps ↔ (s.get x).id ∈ w.pass.report.linkedSteps) ∧
      ((s.get x).id ∈ report.unmatchedSteps ↔ (s.get x).id ∈ w.pass.report.unmatchedSteps)

theorem passedStep_of_clear (hclear : s.Clear) (steps : List (Ref Step)) (hx : x ∈ s.runningSteps) :
    (s.passedStep steps x).definition = (if x ∈ steps then s.definitionOf? x else none) ∧
      (s.passedStep steps x).transforms = if x ∈ steps then s.transformsOf x else [] := by
  obtain ⟨hdefinition, htransforms⟩ := hclear x hx
  unfold passedStep
  split
  · simp [hdefinition, htransforms]
  · exact ⟨hdefinition, htransforms⟩

theorem isSome_definitionOf? (s : Store) (x : Ref Step) :
    (s.definitionOf? x).isSome = (s.stepMatch? x).isSome :=
  Option.isSome_map

theorem isNone_definitionOf? (s : Store) (x : Ref Step) :
    (s.definitionOf? x).isNone = (s.stepMatch? x).isNone :=
  Option.isNone_map

theorem mem_ids_iff (hs : s.Wellformed) {steps : List (Ref Step)} {p : Ref Step → Bool}
    (hsteps : ∀ y ∈ steps, y ∈ s.runningSteps) (hx : x ∈ s.runningSteps) :
    (s.get x).id ∈ ((steps.filter p).map fun y => (s.get y).id) ↔ x ∈ steps ∧ p x = true := by
  rw [← List.mem_filter]
  refine ⟨fun hmem => ?_, List.mem_map_of_mem⟩
  obtain ⟨y, hy, hid⟩ := List.mem_map.mp hmem
  have hsame : y = x := List.inj_on_of_nodup_map hs.nodup_runningSteps
    (hsteps y (List.mem_of_mem_filter hy)) hx hid
  exact hsame ▸ hy

/-- The report says of a step that has been reached what has been found for it. -/
theorem mem_reportOf_iff (hs : s.Wellformed) {steps : List (Ref Step)}
    (hsteps : ∀ y ∈ steps, y ∈ s.runningSteps) (hx : x ∈ s.runningSteps) :
    ((s.get x).id ∈ (s.reportOf steps).linkedSteps ↔
        x ∈ steps ∧ (s.definitionOf? x).isSome = true) ∧
      ((s.get x).id ∈ (s.reportOf steps).unmatchedSteps ↔
        x ∈ steps ∧ (s.definitionOf? x).isNone = true) := by
  rw [isSome_definitionOf?, isNone_definitionOf?]
  exact ⟨mem_ids_iff hs hsteps hx, mem_ids_iff hs hsteps hx⟩

end Store

namespace LinkingPass

variable {s : Store}

/-- **The steps that are texts can be linked without the others.** -/
theorem linkTexts_run (hs : s.Wellformed) (hpatterns : PatternsReadable s) :
    ∃ w, (linkTexts s).run { store := unlink s } = (.ok (), w) ∧
      LinkedUpTo (unlink s) (s.runningSteps.filter s.hasText) w.store ∧
      w.pass.report = s.reportOf (s.runningSteps.filter s.hasText) := by
  have hc := hs.consistent
  have hreset := unlink_reset hc hs.labelled
  generalize unlink s = s₀ at hreset
  have hrewired := hreset.rewired
  set texts := s.runningSteps.filter s.hasText with htexts
  have hrunning : ∀ x ∈ texts, x ∈ s.runningSteps := fun x hx => List.mem_of_mem_filter hx
  have hstart : InProgress s₀ [] [] { store := s₀ } := ⟨.start s₀, Or.inr ⟨rfl, rfl⟩, rfl⟩
  obtain ⟨w₁, hpatterns₁, h₁, hcache₁⟩ :=
    (patterns_run hstart).1 ((hrewired.patternsReadable_iff hc hs.labelled).mpr hpatterns)
  have hready : s₀.Ready ([] ++ texts) := (hs.ready hreset).sublist List.filter_sublist
  obtain ⟨w₂, hrun, h₂, -⟩ := linkSteps_run texts hready h₁ hcache₁
  have hsearchable : ∀ x ∈ texts, s₀.searchable x = true := fun x hx => by
    rw [searchable_eq_hasText, hrewired.hasText_eq hs (hrunning x hx),
      (List.mem_filter.mp hx).2, Bool.or_true]
  rw [outcomeOf, if_pos (List.all_eq_true.mpr hsearchable)] at hrun
  rw [List.takeWhile_eq_self_iff.mpr hsearchable, List.nil_append] at h₂
  refine ⟨w₂, (Action.run_bind_ok hpatterns₁).trans hrun, h₂.linked, ?_⟩
  rw [h₂.report, passReport_nil, hrewired.reportOf_eq hc hs.labelled fun x hx =>
    hs.has_step (hrunning x hx)]

/-- **A pass contains the failures of features**, where the reset leaves no links. -/
theorem linkAll_contained (hs : s.Wellformed) (hpatterns : PatternsReadable s) (hclear : s.Clear)
    (warnings : List Warning) :
    ∃ report w, linkAll.run { store := s, warnings } = (.ok report, w) ∧
      FailuresContained s w.store report := by
  obtain ⟨wt, hruntexts, htextslinked, htextsreport⟩ := linkTexts_run hs hpatterns
  have hreset := unlink_reset hs.consistent hs.labelled
  have hpatterns₀ : PatternsReadable (unlink s) :=
    (hreset.rewired.patternsReadable_iff hs.consistent hs.labelled).mpr hpatterns
  have hreached : (unlink s).linkableSteps = s.reachedSteps := by
    rw [← hreset.rewired.reachedSteps_eq hs, linkableSteps, funext (stepsReached_eq hpatterns₀),
      reachedSteps]
  have hfailing : (unlink s).failingFeatures = s.faultyFeatures := by
    rw [failingFeatures_eq hpatterns₀, hreset.rewired.faultyFeatures_eq hs]
  obtain ⟨w, hrun, hlinked⟩ := linkAll_passed hs hreached hfailing warnings
  have hhas : ∀ x ∈ s.reachedSteps, s.Has (.step x) := fun x hx => hs.has_step (mem_reachedSteps hx)
  have hreport := fun x (hx : x ∈ s.runningSteps) =>
    mem_reportOf_iff hs (fun y hy => mem_reachedSteps hy) hx
  refine ⟨_, w, hrun, hreset.rewired.trans hlinked.rewired, rfl, ?_, ?_, ?_, ?_, ?_,
    fun d hd => hreset.definition_steps hs hlinked hhas hd,
    fun t ht => hreset.transform_steps hs hlinked hhas ht, rfl, ?_⟩
  · exact (nodup_allFeatures hs.consistent hs.labelled).sublist (List.filter_sublist.map _)
  · simp only [isSome_definitionOf?]
    rfl
  · simp only [isNone_definitionOf?]
    rfl
  · intro x hx
    rw [hreset.passedStep hs hlinked (hhas x hx)]
    simpa only [if_pos hx] using passedStep_of_clear hclear s.reachedSteps (mem_reachedSteps hx)
  · intro x hx hnot
    rw [hreset.passedStep hs hlinked (hs.has_step hx)]
    obtain ⟨hdefinition, htransforms⟩ := passedStep_of_clear hclear s.reachedSteps hx
    rw [if_neg hnot] at hdefinition htransforms
    exact ⟨hdefinition, htransforms, fun hmem => hnot ((hreport x hx).1.mp hmem).1,
      fun hmem => hnot ((hreport x hx).2.mp hmem).1⟩
  -- Both passes start from the same reset, so each tells a step that runs in both the same.
  · refine ⟨wt, hruntexts, fun x hx htext => ?_⟩
    have hrunning := mem_reachedSteps hx
    have hmem : x ∈ s.runningSteps.filter s.hasText := List.mem_filter.mpr ⟨hrunning, htext⟩
    obtain ⟨hlisted, hlisted'⟩ :=
      mem_reportOf_iff hs (fun y hy => List.mem_of_mem_filter hy) hrunning
    have hpassed := passedStep_of_clear hclear s.reachedSteps hrunning
    have hpassed' := passedStep_of_clear hclear (s.runningSteps.filter s.hasText) hrunning
    rw [if_pos hx, if_pos hx] at hpassed
    rw [if_pos hmem, if_pos hmem] at hpassed'
    rw [hreset.passedStep hs hlinked (hhas x hx), hreset.passedStep hs htextslinked (hhas x hx),
      htextsreport]
    refine ⟨hpassed.1.trans hpassed'.1.symm, hpassed.2.trans hpassed'.2.symm, ?_, ?_⟩
    · exact (hreport x hrunning).1.trans ((and_congr_left' (by simp [hx, hmem])).trans hlisted.symm)
    · exact (hreport x hrunning).2.trans ((and_congr_left' (by simp [hx, hmem])).trans hlisted'.symm)

end LinkingPass

/-! ## Registries that have been built -/

namespace Store

variable {s s' : Store}

/-- No step has a link. -/
def StepsUnlinked (s : Store) : Prop :=
  ∀ x, s.Has (.step x) → (s.get x).Unlinked

theorem StepsUnlinked.change {named : String → Prop} {moves : Prop} (h : s.StepsUnlinked)
    (hchange : Build.Change named moves s s') : s'.StepsUnlinked := by
  obtain ⟨holder, refs, heffect, -, -⟩ := hchange.effect
  intro x hx
  by_cases hold : s.Has (.step x)
  · have hstep := (heffect.kept _ hold).2.1
    rw [show s'.get x = s.get x from Option.some.inj hstep]
    exact h x hold
  · exact (heffect.new _ hold hx).2.1 _ rfl

/-- Where no step has a link, the reset leaves none. -/
theorem StepsUnlinked.clear (h : s.StepsUnlinked) (hs : s.Wellformed) : s.Clear := by
  intro x hx
  unfold resetStep
  split
  · exact ⟨rfl, rfl⟩
  · exact h x (hs.has_step hx)

/-- Where the running steps are registered, the reset leaves no links on them. -/
theorem Orderly.clear {files : String → Prop} {linked : Prop} (h : Orderly files linked s) :
    s.Clear := by
  intro x hx
  rw [resetStep, if_pos (h.mem_allSteps hx)]
  exact ⟨rfl, rfl⟩

end Store

/-- The registries that builds, definitions and transforms have made, and that have not been linked
yet; of the builds the files are listed, which are different paths of the given sort. -/
inductive Built (paths : Path → Prop) : List Path → Store → Prop
  | empty : Built paths [] {}
  | build {built : List Path} {s : Store} (h : Built paths built s) (call : BuildCall)
      (hpath : paths call.file) (hnew : call.file ∉ built) :
      Built paths (call.file :: built) (call.apply s)
  | define {built : List Path} {s : Store} (h : Built paths built s) (d : Definition)
      (hfree : s.Free d.id) : Built paths built (s.register d).1
  | convert {built : List Path} {s : Store} (h : Built paths built s) (t : Transform)
      (hfree : s.Free t.id) : Built paths built (s.register t).1
  | definitionPattern {built : List Path} {s : Store} (h : Built paths built s)
      (d : Ref Definition) (pattern : Value) :
      Built paths built (s.modify d fun x => { x with pattern })
  | transformPattern {built : List Path} {s : Store} (h : Built paths built s)
      (t : Ref Transform) (pattern : Value) :
      Built paths built (s.modify t fun x => { x with pattern })
  | remove {built : List Path} {s : Store} (h : Built paths built s) (id : String)
      (hfree : s.Free id) : Built paths built (s.remove id)

namespace Built

variable {paths : Path → Prop} {built : List Path} {s : Store}

theorem reached (h : Built paths built s) : Reached paths built s := by
  induction h with
  | empty => exact .empty
  | build h call hpath hnew ih => exact .build ih call hpath hnew
  | define h d hfree ih => exact .define ih d hfree
  | convert h t hfree ih => exact .convert ih t hfree
  | definitionPattern h d pattern ih => exact .definitionPattern ih d pattern
  | transformPattern h t pattern ih => exact .transformPattern ih t pattern
  | remove h id hfree ih => exact .remove ih id hfree

/-- No step has been linked yet. -/
theorem stepsUnlinked (h : Built paths built s) : s.StepsUnlinked := by
  induction h with
  | empty => exact fun x hx => absurd hx (by simp [Store.Has, Arena.Holds])
  | build h call hpath hnew ih =>
    have hchanges := Build.feature_changes call.file call.content call.excluded call.readMe
    exact (hchanges _).preserves (fun _ _ hchange hs => hs.change hchange) ih
  | @define _ s h d hfree ih =>
    have hchange : Build.Change (fun _ => True) True s (s.register d).1 :=
      .register s d ⟨rfl, rfl, rfl⟩ (.inl trivial)
    exact ih.change hchange
  | @convert _ s h t hfree ih =>
    have hchange : Build.Change (fun _ => True) True s (s.register t).1 :=
      .register s t ⟨rfl, rfl, rfl⟩ (.inl trivial)
    exact ih.change hchange
  | @definitionPattern _ s h d pattern ih =>
    have hchange : Build.Change (fun _ => True) True s (s.modify d fun x => { x with pattern }) :=
      .modify s d (fun _ => ⟨rfl, rfl, rfl⟩) (.inl trivial)
    exact ih.change hchange
  | @transformPattern _ s h t pattern ih =>
    have hchange : Build.Change (fun _ => True) True s (s.modify t fun x => { x with pattern }) :=
      .modify s t (fun _ => ⟨rfl, rfl, rfl⟩) (.inl trivial)
    exact ih.change hchange
  | @remove _ s h id hfree ih =>
    intro x hx
    exact ih x ((has_with_catalog s _ _).mp hx)

end Built

/-- **A feature that fails to link does no harm beyond itself.**  A pass over a registry that has
been built, from files at any paths, comes to its end with the failures contained, and so does one
over a registry that has been linked before if no file lies below a directory that is called like the
root namespace. -/
theorem failures_contained :
    (∀ built s, Built IsFeaturePath built s → PatternsReadable s → ∀ warnings, ∃ report w,
      LinkingPass.linkAll.run { store := s, warnings } = (.ok report, w) ∧
        FailuresContained s w.store report) ∧
    ∀ built s, Reached FeaturePath built s → PatternsReadable s → ∀ warnings, ∃ report w,
      LinkingPass.linkAll.run { store := s, warnings } = (.ok report, w) ∧
        FailuresContained s w.store report := by
  constructor
  · intro built s h hpatterns warnings
    have hs := h.reached.wellformed
    exact linkAll_contained hs hpatterns (h.stepsUnlinked.clear hs) warnings
  · intro built s h hpatterns warnings
    have hs := h.orderly.wellformed fun _ => PathName.featureFile
    exact linkAll_contained hs hpatterns h.orderly.clear warnings

/-- The build of a document with one background, whose steps have the given texts. -/
private def weatherCall (file : String) (texts : List Value) : BuildCall where
  file := .ofString file
  content := .ofFields [("feature", .ofFields [("children", .list [.ofFields [("background",
    .ofFields [("steps", .list (texts.map fun text =>
      .ofFields [("keyword", .text "Given "), ("text", text)]))])]])])]
  excluded := []
  readMe := none

/-- Two features, of which the first has a number between two texts. -/
private def forecast : Store :=
  (weatherCall "sky/sun.feature" [.text "warm"]).apply
    ((weatherCall "sky/rain.feature" [.text "wet", .text "warm", .int 3, .text "warm"]).apply {})

private def warmth : Definition where
  id := "d"
  keyword := "Given"
  pattern := .text "w(.)rm"

private def weather : Store :=
  (forecast.register warmth).1

/-- The steps before the number and those of the other feature are linked. -/
theorem failures_contained_weather : ∃ report w,
    LinkingPass.linkAll.run { store := weather } = (.ok report, w) ∧
      FailuresContained weather w.store report ∧
      report.failedFeatures = ["sky/rain.feature"] ∧
      report.linkedSteps = ["sky/rain.feature:background:step_2",
        "sky/sun.feature:background:step_1"] ∧
      report.unmatchedSteps = ["sky/rain.feature:background:step_1"] := by
  have hrain : IsFeaturePath (.ofString "sky/rain.feature") := ⟨Path.proper_ofString _, by decide⟩
  have hsun : IsFeaturePath (.ofString "sky/sun.feature") := ⟨Path.proper_ofString _, by decide⟩
  have hforecast : Built IsFeaturePath [.ofString "sky/sun.feature", .ofString "sky/rain.feature"]
      forecast :=
    .build (.build .empty (weatherCall _ _) hrain List.not_mem_nil) (weatherCall _ _) hsun
      (by decide)
  have hnone : forecast.catalog.find? warmth.id = none := by decide +kernel
  have hweather : Built IsFeaturePath _ weather := hforecast.define warmth fun e he => by
    rw [hnone] at he
    cases he
  have hpatterns : PatternsReadable weather := ⟨by decide +kernel, by decide +kernel⟩
  obtain ⟨report, w, hrun, hcontained⟩ := failures_contained.1 _ weather hweather hpatterns []
  refine ⟨report, w, hrun, hcontained, ?_, ?_, ?_⟩
  · rw [hcontained.failed]
    decide +kernel
  · rw [hcontained.linked]
    decide +kernel
  · rw [hcontained.unmatched]
    decide +kernel

end StepTrace
