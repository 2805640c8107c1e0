import StepTrace.Proofs.Linking.Exact

/-!
# The links that a pass leaves

A pass over an orderly registry links some of the steps that run, and leaves no other links: what
steps know of their targets and what these know of them are the same links (`LinkedFor`).  Which
steps it comes to depends on the texts and the patterns; the report lists those of them that have
found a definition (`linkAll_linkedFor`).
-/

namespace StepTrace

open Store LinkingPass

namespace Store

/-- All links of the registry are those of the given steps, which run. -/
structure LinkedFor (done : List (Ref Step)) (s : Store) : Prop where
  running : done.Sublist s.runningSteps
  registered : ∀ x ∈ done, x ∈ s.allSteps
  definition : ∀ x ∈ s.allSteps, ∀ d, (s.get x).definition = some d →
    x ∈ done ∧ d ∈ s.allDefinitions
  nodup : ∀ x ∈ s.allSteps, (s.get x).transforms.Nodup
  transform : ∀ x ∈ s.allSteps, ∀ t ∈ (s.get x).transforms, x ∈ done ∧ t ∈ s.allTransforms
  ofDefinition : ∀ d ∈ s.allDefinitions, (s.get d).steps =
    (done.filter fun x => (s.get x).definition = some d).map fun x => (s.get x).id
  ofTransform : ∀ t ∈ s.allTransforms, (s.get t).steps =
    (done.filter fun x => t ∈ (s.get x).transforms).map fun x => (s.get x).id

variable {s : Store} {x : Ref Step}

theorem mem_of_definitionOf? {d : Ref Definition} (h : s.definitionOf? x = some d) :
    d ∈ s.allDefinitions := by
  obtain ⟨⟨d', m⟩, hmatch, rfl⟩ := Option.map_eq_some_iff.mp h
  exact mem_of_firstMatch? hmatch

theorem mem_of_transformsOf {t : Ref Transform} (h : t ∈ s.transformsOf x) :
    t ∈ s.allTransforms := by
  unfold transformsOf at h
  split at h
  · exact mem_of_capturedTransforms h
  · cases h

/-- After the reset no registered step has links, so it has those that the pass has given it. -/
theorem Reset.step_links {s₀ s' : Store} {done : List (Ref Step)} (hreset : Reset s s₀)
    (hlinked : LinkedUpTo s₀ done s') (hx : x ∈ s.allSteps) (hhas : s₀.Has (.step x)) :
    (s'.get x).id = (s₀.get x).id ∧
      (s'.get x).definition = (if x ∈ done then s₀.definitionOf? x else none) ∧
      (s'.get x).transforms = if x ∈ done then s₀.transformsOf x else [] := by
  have hbare : s₀.get x = { s.get x with definition := none, transforms := [] } := by
    rw [hreset.step, resetStep, if_pos hx]
  rw [hlinked.step hhas]
  split
  · rw [linkedStep, hbare]
    simp
  · rw [hbare]
    exact ⟨rfl, rfl, rfl⟩

/-- **What is linked after the reset** has the links of the steps that have been come to, and no
others. -/
theorem Reset.linkedFor {s₀ s' : Store} {files : String → Prop} {linked : Prop}
    (hreset : Reset s s₀) (hs : Orderly files linked s) (hwell : s.Wellformed)
    (hlinked : LinkedUpTo s₀ s₀.linkableSteps s') : LinkedFor s₀.linkableSteps s' := by
  have hrewired : Rewired s s' := hreset.rewired.trans hlinked.rewired
  have hrunning : s'.runningSteps = s₀.runningSteps := by
    rw [hrewired.runningSteps_eq hwell, ← hreset.rewired.runningSteps_eq hwell]
  have hdone : ∀ x ∈ s₀.linkableSteps, x ∈ s.allSteps := fun x hx => by
    have hx := (linkableSteps_sublist s₀).subset hx
    rw [hreset.rewired.runningSteps_eq hwell] at hx
    exact hs.mem_allSteps hx
  have hhas : ∀ x ∈ s.allSteps, s₀.Has (.step x) := fun x hx => by
    obtain ⟨id, hid⟩ := (mem_allSteps hs.consistent).mp hx
    exact (hreset.rewired.has _).mpr (hs.labelled hid).has
  have hstep := fun x (hx : x ∈ s.allSteps) => hreset.step_links hlinked hx (hhas x hx)
  have hid : ∀ x ∈ s₀.linkableSteps, (s₀.get x).id = (s'.get x).id := fun x hx =>
    (hstep x (hdone x hx)).1.symm
  have hdefinition : ∀ x ∈ s₀.linkableSteps, (s'.get x).definition = s₀.definitionOf? x :=
    fun x hx => (hstep x (hdone x hx)).2.1.trans (if_pos hx)
  have htransforms : ∀ x ∈ s₀.linkableSteps, (s'.get x).transforms = s₀.transformsOf x :=
    fun x hx => (hstep x (hdone x hx)).2.2.trans (if_pos hx)
  constructor
  case running => exact hrunning ▸ linkableSteps_sublist s₀
  case registered => exact fun x hx => hrewired.allSteps_eq ▸ hdone x hx
  case definition =>
    intro x hx d hd
    rw [hrewired.allSteps_eq] at hx
    rw [(hstep x hx).2.1] at hd
    split at hd
    case isTrue hx =>
      refine ⟨hx, ?_⟩
      rw [hlinked.rewired.allDefinitions_eq]
      exact mem_of_definitionOf? hd
    case isFalse => cases hd
  case nodup =>
    intro x hx
    rw [hrewired.allSteps_eq] at hx
    rw [(hstep x hx).2.2]
    split
    · exact nodup_transformsOf s₀ x
    · exact List.nodup_nil
  case transform =>
    intro x hx t ht
    rw [hrewired.allSteps_eq] at hx
    rw [(hstep x hx).2.2] at ht
    split at ht
    case isTrue hx =>
      refine ⟨hx, ?_⟩
      rw [hlinked.rewired.allTransforms_eq]
      exact mem_of_transformsOf ht
    case isFalse => cases ht
  -- the reset has left the records without steps: all that they have comes from the pass
  case ofDefinition =>
    intro d hd
    rw [hrewired.allDefinitions_eq] at hd
    obtain ⟨id, hfind⟩ := (mem_allDefinitions hs.consistent).mp hd
    rw [hlinked.definition ((hreset.rewired.has _).mpr (hs.labelled hfind).has)]
    dsimp only
    rw [hreset.definition d hd, List.nil_append, stepsOfDefinition,
      List.filter_congr fun x hx => by rw [← hdefinition x hx]]
    exact List.map_congr_left fun x hx => hid x (List.mem_of_mem_filter hx)
  case ofTransform =>
    intro t ht
    rw [hrewired.allTransforms_eq] at ht
    obtain ⟨id, hfind⟩ := (mem_allTransforms hs.consistent).mp ht
    rw [hlinked.transform ((hreset.rewired.has _).mpr (hs.labelled hfind).has)]
    dsimp only
    rw [hreset.transform t ht, List.nil_append, stepsOfTransform,
      List.filter_congr fun x hx => by rw [← htransforms x hx]]
    exact List.map_congr_left fun x hx => hid x (List.mem_of_mem_filter hx)

end Store

namespace LinkingPass

variable {files : String → Prop} {linked : Prop} {s : Store}

/-- **What a pass leaves.** -/
theorem linkAll_linkedFor (hs : Orderly files linked s) (hfiles : ∀ file, files file → FeatureFile file)
    (warnings : List Warning) :
    ∃ report w done, linkAll.run { store := s, warnings } = (.ok report, w) ∧
      Rewired s w.store ∧ LinkedFor done w.store ∧
      report.linkedSteps = (done.filter fun x => (w.store.get x).definition.isSome).map fun x =>
        (w.store.get x).id := by
  have hwell : s.Wellformed := hs.wellformed hfiles
  have hreset : Reset s (unlink s) := unlink_reset hs.consistent hs.labelled
  obtain ⟨unused, w, hrun, hlinked⟩ := linkAll_run_ok hwell warnings
  generalize unlink s = s₀ at hreset hrun hlinked
  refine ⟨_, w, s₀.linkableSteps, hrun, hreset.rewired.trans hlinked.rewired,
    hreset.linkedFor hs hwell hlinked, ?_⟩
  have hstep : ∀ x ∈ s₀.linkableSteps, (w.store.get x).id = (s₀.get x).id ∧
      (w.store.get x).definition = s₀.definitionOf? x := by
    intro x hx
    have hrunning := (linkableSteps_sublist s₀).subset hx
    rw [hreset.rewired.runningSteps_eq hwell] at hrunning
    have hhas : s₀.Has (.step x) := (hreset.rewired.has _).mpr (hwell.has_step hrunning)
    obtain ⟨hid, hdefinition, -⟩ := hreset.step_links hlinked (hs.mem_allSteps hrunning) hhas
    exact ⟨hid, hdefinition.trans (if_pos hx)⟩
  change (s₀.linkableSteps.filter fun x => (s₀.stepMatch? x).isSome).map (fun x => (s₀.get x).id) = _
  rw [List.filter_congr (q := fun x => (w.store.get x).definition.isSome) fun x hx => by
    rw [(hstep x hx).2, definitionOf?, Option.isSome_map]]
  exact List.map_congr_left fun x hx => (hstep x (List.mem_of_mem_filter hx)).1.symm

end LinkingPass

end StepTrace
