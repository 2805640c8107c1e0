import StepTrace.Proofs.Linking.Runners

/-!
# Links in both directions

A step knows its definition and its transforms, and these know the steps that are linked to them:
the two directions are inverse to each other (`LinksInverse`).

What a pass links a step to depends on the patterns that it has read and not on what was linked
before, so a step that is linked again is linked to the same definition (`Interlinked`).  Linking one
more step keeps this (`Interlinked.next`).
-/

namespace StepTrace

open Store LinkingPass

namespace Store

/-- The links of registered steps, definitions and transforms are inverse to each other, nothing is
linked twice, no step is linked to transforms alone, and no template is linked. -/
structure LinksInverse (s : Store) : Prop where
  definition : ∀ x ∈ s.allSteps, ∀ d ∈ s.allDefinitions,
    (s.get x).definition = some d ↔ (s.get x).id ∈ (s.get d).steps
  transform : ∀ x ∈ s.allSteps, ∀ t ∈ s.allTransforms,
    t ∈ (s.get x).transforms ↔ (s.get x).id ∈ (s.get t).steps
  nodup_definition : ∀ d ∈ s.allDefinitions, (s.get d).steps.Nodup
  nodup_transform : ∀ t ∈ s.allTransforms, (s.get t).steps.Nodup
  nodup_step : ∀ x ∈ s.allSteps, (s.get x).transforms.Nodup
  defined : ∀ x ∈ s.allSteps, (s.get x).transforms ≠ [] → (s.get x).definition.isSome
  templates : s.TemplatesUnlinked

/-- The patterns are those of records that are there. -/
structure Cached (c : PatternCache) (s : Store) : Prop where
  definition : ∀ p ∈ c.definitions, s.Has (.definition p.2)
  transform : ∀ p ∈ c.transforms, s.Has (.transform p.2)

/-- All links have been made with the given patterns: what a definition or transform knows of is a
step that runs and that is linked to it. -/
structure Interlinked (c : PatternCache) (s : Store) : Prop where
  ofDefinition : ∀ d ∈ s.allDefinitions, ∀ id ∈ (s.get d).steps, ∃ x ∈ s.runningSteps,
    (s.get x).id = id ∧ (s.get x).definition = some d ∧
      ∃ m, c.firstDefinition? (s.get x).text = .ok (some (d, m))
  ofTransform : ∀ t ∈ s.allTransforms, ∀ id ∈ (s.get t).steps, ∃ x ∈ s.runningSteps,
    (s.get x).id = id ∧ t ∈ (s.get x).transforms
  toDefinition : ∀ x ∈ s.allSteps, ∀ d ∈ s.allDefinitions, (s.get x).definition = some d →
    (s.get x).id ∈ (s.get d).steps
  toTransform : ∀ x ∈ s.allSteps, ∀ t ∈ s.allTransforms, t ∈ (s.get x).transforms →
    (s.get x).id ∈ (s.get t).steps
  nodup_definition : ∀ d ∈ s.allDefinitions, (s.get d).steps.Nodup
  nodup_transform : ∀ t ∈ s.allTransforms, (s.get t).steps.Nodup
  nodup_step : ∀ x ∈ s.allSteps, (s.get x).transforms.Nodup
  defined : ∀ x ∈ s.allSteps, (s.get x).transforms ≠ [] → (s.get x).definition.isSome

variable {s s' : Store} {c : PatternCache}

/-- **The links of such a registry are inverse**: the step that a target knows of is the one that is
registered under the identifier. -/
theorem Interlinked.inverse (h : s.Interlinked c) (hs : s.Wellformed) (hsole : s.Sole)
    (htemplates : s.TemplatesUnlinked) : s.LinksInverse := by
  have hsame : ∀ x ∈ s.allSteps, ∀ y ∈ s.runningSteps, (s.get y).id = (s.get x).id → x = y := by
    intro x hx y hy hid
    obtain ⟨id, hfind⟩ := (mem_allSteps hs.consistent).mp hx
    have hidx : (s.get x).id = id := (hs.labelled hfind).idOf
    exact hsole y hy x (by rw [hid, hidx, hfind])
  refine ⟨fun x hx d hd => ⟨h.toDefinition x hx d hd, fun hmem => ?_⟩,
    fun x hx t ht => ⟨h.toTransform x hx t ht, fun hmem => ?_⟩, h.nodup_definition,
    h.nodup_transform, h.nodup_step, h.defined, htemplates⟩
  · obtain ⟨y, hy, hid, hdefinition, -⟩ := h.ofDefinition d hd _ hmem
    rwa [hsame x hx y hy hid]
  · obtain ⟨y, hy, hid, htransform⟩ := h.ofTransform t ht _ hmem
    rwa [hsame x hx y hy hid]

end Store

namespace LinkingPass

/-! ## Linking one more step -/

namespace StepLinked

variable {s s' : Store} {x : Ref Step} {d : Ref Definition} {transforms : List (Ref Transform)}
  (h : StepLinked x d transforms s s')
include h

theorem get_id (y : Ref Step) : (s'.get y).id = (s.get y).id := by
  by_cases hy : y = x
  · rw [hy, h.step]
  · rw [h.get_other y hy]

theorem transforms_kept (y : Ref Step) (t : Ref Transform) (ht : t ∈ (s.get y).transforms) :
    t ∈ (s'.get y).transforms := by
  by_cases hy : y = x
  · rw [hy] at ht ⊢
    rw [h.step]
    exact (mem_foldl_addNew _ _).mpr (.inl ht)
  · rwa [h.get_other y hy]

theorem definition_steps (d' : Ref Definition) : (s'.get d').steps =
    if d' = d then addNew (s.get x).id (s.get d').steps else (s.get d').steps :=
  congrArg Definition.steps (h.get_definition d')

theorem transform_steps (t : Ref Transform) : (s'.get t).steps =
    if t ∈ transforms then addNew (s.get x).id (s.get t).steps else (s.get t).steps :=
  congrArg Transform.steps (h.get_transform t)

theorem mem_definition {d' : Ref Definition} {id : String} :
    id ∈ (s'.get d').steps ↔ (d' = d ∧ id = (s.get x).id) ∨ id ∈ (s.get d').steps := by
  rw [h.definition_steps]
  split <;> simp [mem_addNew, *]

theorem mem_transform {t : Ref Transform} {id : String} :
    id ∈ (s'.get t).steps ↔ (t ∈ transforms ∧ id = (s.get x).id) ∨ id ∈ (s.get t).steps := by
  rw [h.transform_steps]
  split <;> simp [mem_addNew, *]

theorem nodup_definition {d' : Ref Definition} (hd : (s.get d').steps.Nodup) :
    (s'.get d').steps.Nodup := by
  rw [h.definition_steps]
  split
  · exact nodup_addNew hd
  · exact hd

theorem nodup_transform {t : Ref Transform} (ht : (s.get t).steps.Nodup) :
    (s'.get t).steps.Nodup := by
  rw [h.transform_steps]
  split
  · exact nodup_addNew ht
  · exact ht

end StepLinked

end LinkingPass

namespace Store

variable {s s' : Store} {c : PatternCache}

/-- **A step that runs may be linked, for the first time or again.** -/
theorem Interlinked.next (h : s.Interlinked c) (hs : s.Wellformed) {x : Ref Step}
    (hx : x ∈ s.runningSteps) {d : Ref Definition} {m : Regex.Match}
    (hfound : c.firstDefinition? (s.get x).text = .ok (some (d, m)))
    {transforms : List (Ref Transform)} (hrewired : Rewired s s')
    (hlinked : StepLinked x d transforms s s') : s'.Interlinked c := by
  have hother := hlinked.get_other
  have hid := hlinked.get_id
  have hkept := hlinked.transforms_kept
  have hself : (s'.get x).definition = some d := by rw [hlinked.step]
  have htext : (s'.get x).text = (s.get x).text := by rw [hlinked.step]
  -- Only `x`, `d` and the transforms have other links than before, so each field is split on
  -- whether it is about one of them.
  constructor
  all_goals
    simp only [hrewired.runningSteps_eq hs, hrewired.allSteps_eq, hrewired.allDefinitions_eq,
      hrewired.allTransforms_eq]
  case ofDefinition =>
    intro d' hd' id hmem
    rcases hlinked.mem_definition.mp hmem with ⟨rfl, rfl⟩ | hmem
    · exact ⟨x, hx, hid x, hself, m, htext ▸ hfound⟩
    · obtain ⟨y, hy, hidy, hdefinition, m', hfound'⟩ := h.ofDefinition d' hd' id hmem
      by_cases heq : y = x
      · -- the step was linked before, by the same patterns
        subst heq
        rw [hfound] at hfound'
        cases hfound'
        exact ⟨y, hx, (hid y).trans hidy, hself, m, htext ▸ hfound⟩
      · rw [← hother y heq] at hidy hdefinition hfound'
        exact ⟨y, hy, hidy, hdefinition, m', hfound'⟩
  case ofTransform =>
    intro t ht id hmem
    rcases hlinked.mem_transform.mp hmem with ⟨htransform, rfl⟩ | hmem
    · refine ⟨x, hx, hid x, ?_⟩
      rw [hlinked.step]
      exact (mem_foldl_addNew _ _).mpr (.inr htransform)
    · obtain ⟨y, hy, hidy, htransform⟩ := h.ofTransform t ht id hmem
      exact ⟨y, hy, (hid y).trans hidy, hkept y t htransform⟩
  case toDefinition =>
    intro y hy d' hd' hdefinition
    rw [hid]
    refine hlinked.mem_definition.mpr ?_
    by_cases heq : y = x
    · subst heq
      rw [hself] at hdefinition
      cases hdefinition
      exact .inl ⟨rfl, rfl⟩
    · rw [hother y heq] at hdefinition
      exact .inr (h.toDefinition y hy d' hd' hdefinition)
  case toTransform =>
    intro y hy t ht htransform
    rw [hid]
    refine hlinked.mem_transform.mpr ?_
    by_cases heq : y = x
    · subst heq
      rw [hlinked.step] at htransform
      rcases (mem_foldl_addNew _ _).mp htransform with hold | hnew
      · exact .inr (h.toTransform y hy t ht hold)
      · exact .inl ⟨hnew, rfl⟩
    · rw [hother y heq] at htransform
      exact .inr (h.toTransform y hy t ht htransform)
  case nodup_definition => exact fun d' hd' => hlinked.nodup_definition (h.nodup_definition d' hd')
  case nodup_transform => exact fun t ht => hlinked.nodup_transform (h.nodup_transform t ht)
  case nodup_step =>
    intro y hy
    by_cases heq : y = x
    · subst heq
      rw [hlinked.step]
      exact nodup_foldl_addNew _ (h.nodup_step y hy)
    · rw [hother y heq]
      exact h.nodup_step y hy
  case defined =>
    intro y hy
    by_cases heq : y = x
    · subst heq
      rw [hself]
      exact fun _ => rfl
    · rw [hother y heq]
      exact h.defined y hy

/-- A step that is no template may be linked. -/
theorem TemplatesUnlinked.next (h : s.TemplatesUnlinked) {x : Ref Step} {d : Ref Definition}
    {transforms : List (Ref Transform)} (hrewired : Rewired s s')
    (hlinked : StepLinked x d transforms s s')
    (hx : ∀ o, s.Has (.outline o) → x ∉ (s.get o).steps) : s'.TemplatesUnlinked := by
  intro o ho y hy
  have ho := (hrewired.has _).mp ho
  have hsame : s'.get o = s.get o :=
    Content.outline.inj (hlinked.content (.outline o) nofun nofun fun _ _ => nofun)
  rw [hsame] at hy
  have hne : y ≠ x := by
    rintro rfl
    exact hx o ho hy
  rw [hlinked.get_other y hne]
  exact h o ho y hy

/-! ## What else keeps the links inverse -/

/-- What is linked depends on the links and on the steps that run only. -/
theorem Interlinked.of_same (h : s.Interlinked c) (hcatalog : s'.catalog = s.catalog)
    (hrunning : s'.runningSteps = s.runningSteps) (hstep : ∀ x : Ref Step, s'.get x = s.get x)
    (hdefinition : ∀ d ∈ s.allDefinitions, (s'.get d).steps = (s.get d).steps)
    (htransform : ∀ t ∈ s.allTransforms, (s'.get t).steps = (s.get t).steps) :
    s'.Interlinked c := by
  have hsteps : s'.allSteps = s.allSteps := by rw [allSteps, hcatalog, ← allSteps]
  have hdefinitions : s'.allDefinitions = s.allDefinitions := by
    rw [allDefinitions, hcatalog, ← allDefinitions]
  have htransforms : s'.allTransforms = s.allTransforms := by
    rw [allTransforms, hcatalog, ← allTransforms]
  constructor
  all_goals simp only [hrunning, hsteps, hdefinitions, htransforms, hstep]
  case ofDefinition => exact fun d hd => hdefinition d hd ▸ h.ofDefinition d hd
  case ofTransform => exact fun t ht => htransform t ht ▸ h.ofTransform t ht
  case toDefinition => exact fun x hx d hd => hdefinition d hd ▸ h.toDefinition x hx d hd
  case toTransform => exact fun x hx t ht => htransform t ht ▸ h.toTransform x hx t ht
  case nodup_definition => exact fun d hd => hdefinition d hd ▸ h.nodup_definition d hd
  case nodup_transform => exact fun t ht => htransform t ht ▸ h.nodup_transform t ht
  case nodup_step => exact h.nodup_step
  case defined => exact h.defined

/-- After a reset nothing is linked, and so all is linked with any patterns. -/
theorem interlinked_reset (h : Reset s s') : s'.Interlinked c := by
  have hsteps : ∀ x ∈ s'.allSteps, (s'.get x).Unlinked := by
    intro x hx
    rw [h.rewired.allSteps_eq] at hx
    rw [h.step, resetStep, if_pos hx]
    exact ⟨rfl, rfl⟩
  have hdefinitions : ∀ d ∈ s'.allDefinitions, (s'.get d).steps = [] := by
    rw [h.rewired.allDefinitions_eq]
    exact h.definition
  have htransforms : ∀ t ∈ s'.allTransforms, (s'.get t).steps = [] := by
    rw [h.rewired.allTransforms_eq]
    exact h.transform
  constructor
  case ofDefinition =>
    intro d hd
    rw [hdefinitions d hd]
    intro _ hmem
    cases hmem
  case ofTransform =>
    intro t ht
    rw [htransforms t ht]
    intro _ hmem
    cases hmem
  case toDefinition =>
    intro x hx d _ hsome
    rw [(hsteps x hx).1] at hsome
    cases hsome
  case toTransform =>
    intro x hx t _ hmem
    rw [(hsteps x hx).2] at hmem
    cases hmem
  case nodup_definition =>
    intro d hd
    rw [hdefinitions d hd]
    exact List.nodup_nil
  case nodup_transform =>
    intro t ht
    rw [htransforms t ht]
    exact List.nodup_nil
  case nodup_step =>
    intro x hx
    rw [(hsteps x hx).2]
    exact List.nodup_nil
  case defined => exact fun x hx hsome => absurd (hsteps x hx).2 hsome

end Store

end StepTrace
