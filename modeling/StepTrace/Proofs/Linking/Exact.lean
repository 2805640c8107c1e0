import StepTrace.Proofs.Linking.Run

/-!
# Links after a pass

A pass over a registry whose running steps are texts and whose patterns can be read always comes to
its end; reports, and what targets know of their steps, are then as specified (`PassDone`).  The
steps themselves are, too, if they are registered, since the reset has taken out their old links.
Where something has displaced a step in the registry, the reset does not see it, and the pass leaves
the links of the specification (`ExactlyLinked`) if and only if the old ones do not get in the way
(`linkAll_links`).
-/

namespace StepTrace

open Store LinkingPass Linking

/-- All that the specification says of the registry `s'` after a pass over `s`, and of the report,
but for the links of running steps. -/
structure PassDone (s s' : Store) (report : LinkReport) : Prop where
  rewired : Rewired s s'
  others : ∀ x ∈ s.allSteps, x ∉ s.runningSteps →
    (s'.get x).definition = none ∧ (s'.get x).transforms = []
  definition : ∀ d ∈ s.allDefinitions, (s'.get d).steps = s.stepsOfDefinition s.runningSteps d
  transform : ∀ t ∈ s.allTransforms, (s'.get t).steps = s.stepsOfTransform s.runningSteps t
  report : report = { s.reportOf s.runningSteps with
    unusedDefinitions := (s.allDefinitions.filter fun d =>
      ∀ x ∈ s.runningSteps, s.definitionOf? x ≠ some d).map fun d => (s.get d).id }

/-- The links of the registry `s'`, and the report, are those that the specification gives for
`s`. -/
structure ExactlyLinked (s s' : Store) (report : LinkReport) : Prop extends
    PassDone s s' report where
  running : ∀ x ∈ s.runningSteps, (s'.get x).definition = s.definitionOf? x ∧
    (s'.get x).transforms = s.transformsOf x

/-- Every step that runs is a text. -/
def StepsAreTexts (s : Store) : Prop :=
  ∀ x ∈ s.runningSteps, ∃ text, (s.get x).text = .text text

namespace Store

/-- The step as the reset leaves it: without links, if it is registered. -/
def resetStep (s : Store) (x : Ref Step) : Step :=
  if x ∈ s.allSteps then { s.get x with definition := none, transforms := [] } else s.get x

/-- The links that the step has do not get in the way of those that are specified for it. -/
structure Harmless (s : Store) (x : Ref Step) : Prop where
  definition : (s.get x).definition.isSome → (s.definitionOf? x).isSome
  transforms : (s.get x).transforms <+: s.transformsOf x

variable {s s' : Store}

private theorem findSome?_congr {α β : Type} {f g : α → Option β} {xs : List α}
    (h : ∀ x ∈ xs, f x = g x) : xs.findSome? f = xs.findSome? g := by
  induction xs with
  | nil => rfl
  | cons x xs ih =>
      rw [List.findSome?_cons, List.findSome?_cons, h x (List.mem_cons_self ..),
        ih fun y hy => h y (List.mem_cons_of_mem _ hy)]

/-! ## What the specification looks at is not changed by links -/

namespace Rewired

variable (h : Rewired s s')
include h

theorem allDefinitions_eq : s'.allDefinitions = s.allDefinitions := by
  rw [allDefinitions, h.catalog, ← allDefinitions]

theorem allTransforms_eq : s'.allTransforms = s.allTransforms := by
  rw [allTransforms, h.catalog, ← allTransforms]

theorem allSteps_eq : s'.allSteps = s.allSteps := by
  rw [allSteps, h.catalog, ← allSteps]

theorem allFeatures_eq : s'.allFeatures = s.allFeatures := by
  rw [allFeatures, h.catalog, ← allFeatures]

theorem step {x : Ref Step} (hx : s.Has (.step x)) :
    { s'.get x with definition := none, transforms := [] } =
      { s.get x with definition := none, transforms := [] } :=
  Content.step.inj (h.content hx)

theorem definition_pattern {d : Ref Definition} (hd : s.Has (.definition d)) :
    (s'.get d).pattern = (s.get d).pattern :=
  (congrArg Definition.pattern (Content.definition.inj (h.content hd)) :)

theorem transform_pattern {t : Ref Transform} (ht : s.Has (.transform t)) :
    (s'.get t).pattern = (s.get t).pattern :=
  (congrArg Transform.pattern (Content.transform.inj (h.content ht)) :)

variable (hc : s.catalog.Consistent) (hlabelled : s.Labelled)
include hc hlabelled

theorem firstMatch?_eq (text : String) : s'.firstMatch? text = s.firstMatch? text := by
  unfold firstMatch?
  rw [h.allDefinitions_eq]
  refine findSome?_congr fun d hd => ?_
  obtain ⟨id, hid⟩ := (mem_allDefinitions hc).mp hd
  rw [h.definition_pattern (hlabelled hid).has]

theorem transformsIn_eq (text : String) : s'.transformsIn text = s.transformsIn text := by
  unfold transformsIn
  rw [h.allTransforms_eq]
  refine List.filter_congr fun t ht => ?_
  obtain ⟨id, hid⟩ := (mem_allTransforms hc).mp ht
  rw [h.transform_pattern (hlabelled hid).has]

theorem capturedTransforms_eq (m : Regex.Match) :
    s'.capturedTransforms m = s.capturedTransforms m := by
  rw [capturedTransforms, capturedTransforms, funext (h.transformsIn_eq hc hlabelled)]

theorem stepMatch?_eq {x : Ref Step} (hx : s.Has (.step x)) : s'.stepMatch? x = s.stepMatch? x := by
  have htext : (s'.get x).text = (s.get x).text := (congrArg Step.text (h.step hx) :)
  rw [stepMatch?, stepMatch?, htext, h.firstMatch?_eq hc hlabelled]

theorem definitionOf?_eq {x : Ref Step} (hx : s.Has (.step x)) :
    s'.definitionOf? x = s.definitionOf? x := by
  rw [definitionOf?, definitionOf?, h.stepMatch?_eq hc hlabelled hx]

theorem transformsOf_eq {x : Ref Step} (hx : s.Has (.step x)) :
    s'.transformsOf x = s.transformsOf x := by
  rw [transformsOf, transformsOf, h.stepMatch?_eq hc hlabelled hx,
    funext (h.capturedTransforms_eq hc hlabelled)]

/-- Of steps that are there, the same are linked to a definition. -/
theorem stepsOfDefinition_eq {steps : List (Ref Step)} (hsteps : ∀ x ∈ steps, s.Has (.step x))
    (d : Ref Definition) : s'.stepsOfDefinition steps d = s.stepsOfDefinition steps d := by
  unfold stepsOfDefinition
  rw [List.filter_congr fun x hx => by rw [h.definitionOf?_eq hc hlabelled (hsteps x hx)]]
  refine List.map_congr_left fun x hx => ?_
  exact (h.idOf (hsteps x (List.mem_of_mem_filter hx)) :)

theorem stepsOfTransform_eq {steps : List (Ref Step)} (hsteps : ∀ x ∈ steps, s.Has (.step x))
    (t : Ref Transform) : s'.stepsOfTransform steps t = s.stepsOfTransform steps t := by
  unfold stepsOfTransform
  rw [List.filter_congr fun x hx => by rw [h.transformsOf_eq hc hlabelled (hsteps x hx)]]
  refine List.map_congr_left fun x hx => ?_
  exact (h.idOf (hsteps x (List.mem_of_mem_filter hx)) :)

theorem reportOf_eq {steps : List (Ref Step)} (hsteps : ∀ x ∈ steps, s.Has (.step x)) :
    s'.reportOf steps = s.reportOf steps := by
  have hids : ∀ {p : Ref Step → Bool}, ((steps.filter p).map fun x => (s'.get x).id) =
      (steps.filter p).map fun x => (s.get x).id := by
    intro p
    refine List.map_congr_left fun x hx => ?_
    exact (h.idOf (hsteps x (List.mem_of_mem_filter hx)) :)
  unfold reportOf
  rw [hids, hids, List.filter_congr fun x hx => by rw [h.stepMatch?_eq hc hlabelled (hsteps x hx)],
    List.filter_congr (p := fun x => (s'.stepMatch? x).isNone) fun x hx => by
      rw [h.stepMatch?_eq hc hlabelled (hsteps x hx)]]

end Rewired

/-! ## Steps that run -/

variable {files : String → Prop} {linked : Prop}

/-- In an orderly registry every step that runs is registered. -/
theorem Orderly.mem_allSteps (hs : Orderly files linked s) {x : Ref Step}
    (hx : x ∈ s.runningSteps) : x ∈ s.allSteps := by
  obtain ⟨r, hr, hx⟩ := List.mem_flatMap.mp hx
  obtain ⟨id, hid⟩ := (mem_allFeatures hs.consistent).mp hr
  have hpart : Entry.step x ∈ s.featureParts r :=
    (steps_sublist_featureParts s r).subset (List.mem_map_of_mem hx)
  exact (Store.mem_allSteps hs.consistent).mpr
    ⟨_, ((hs.placed hid).placed_parts _ hpart).find?⟩

/-- In any registry they are there. -/
theorem Wellformed.has_step (hs : s.Wellformed) {x : Ref Step} (hx : x ∈ s.runningSteps) :
    s.Has (.step x) := by
  obtain ⟨r, hr, hx⟩ := List.mem_flatMap.mp hx
  obtain ⟨c, hc, hx⟩ := List.mem_flatMap.mp hx
  obtain ⟨id, -, hformed⟩ := hs.mem_allFeatures hr
  obtain ⟨cid, hscenario⟩ := hformed.stepContainer hc
  obtain ⟨i, hi⟩ := hscenario.steps.exists_of_mem hx
  exact hi.has

/-- No two of them have the same identifier. -/
theorem Wellformed.nodup_runningSteps (hs : s.Wellformed) :
    (s.runningSteps.map fun x => (s.get x).id).Nodup := by
  have hsublist : ∀ features : List (Ref Feature), ((features.flatMap fun r =>
      s.containerSteps (s.stepContainers (s.get r))).map Entry.step).Sublist
        (features.flatMap s.featureParts) := by
    intro features
    induction features with
    | nil => exact List.Sublist.refl _
    | cons r features ih =>
        rw [List.flatMap_cons, List.map_append, List.flatMap_cons]
        exact (steps_sublist_featureParts s r).append ih
  have hnodup := (spread_allFeatures hs.consistent hs.labelled hs.formed).nodup.sublist
    ((hsublist s.allFeatures).map s.idOf)
  rwa [List.map_map] at hnodup

theorem Rewired.runningSteps_eq (h : Rewired s s') (hs : s.Wellformed) :
    s'.runningSteps = s.runningSteps := by
  unfold runningSteps
  rw [h.allFeatures_eq]
  refine List.flatMap_congr fun r hr => ?_
  obtain ⟨id, -, hformed⟩ := hs.mem_allFeatures hr
  rw [h.steady.stepContainers hformed]
  refine List.flatMap_congr fun c hc => ?_
  obtain ⟨cid, hscenario⟩ := hformed.stepContainer hc
  rw [h.steady.get_scenario hscenario.formed.has]

/-! ## The reset -/

/-- All that is registered has lost its links, and nothing else has changed. -/
structure Reset (s s₀ : Store) : Prop where
  rewired : Rewired s s₀
  step : ∀ x, s₀.get x = s.resetStep x
  definition : ∀ d ∈ s.allDefinitions, (s₀.get d).steps = []
  transform : ∀ t ∈ s.allTransforms, (s₀.get t).steps = []

theorem unlink_reset (hc : s.catalog.Consistent) (hlabelled : s.Labelled) :
    Reset s (unlink s) := by
  set f : Step → Step := fun x => { x with definition := none, transforms := [] }
  set g : Definition → Definition := fun d => { d with steps := [] }
  set k : Transform → Transform := fun t => { t with steps := [] }
  have hhas : ∀ {id e}, s.catalog.find? id = some e → s.Has e := fun he => (hlabelled he).has
  set s₁ := s.allSteps.foldl (fun s x => s.modify x f) s
  have h₁ : Rewired s s₁ := .foldl (fun s x => .modify s x (f := f) fun _ => rfl) s _
  set s₂ := s₁.allDefinitions.foldl (fun s d => s.modify d g) s₁ with hs₂
  have h₂ : Rewired s₁ s₂ := .foldl (fun s d => .modify s d (f := g) fun _ => rfl) s₁ _
  set s₃ := s₂.allTransforms.foldl (fun s t => s.modify t k) s₂ with hs₃
  have hunlink : unlink s = s₃ := rfl
  obtain ⟨hsteps, hother₁⟩ := foldl_modify (f := f) (fun _ => rfl) s.allSteps s fun x hx => by
    obtain ⟨id, hid⟩ := (Store.mem_allSteps hc).mp hx
    exact hhas hid
  obtain ⟨hdefinitions, hother₂⟩ := foldl_modify (f := g) (fun _ => rfl) s₁.allDefinitions s₁
    fun d hd => by
      rw [h₁.allDefinitions_eq] at hd
      obtain ⟨id, hid⟩ := (mem_allDefinitions hc).mp hd
      exact (h₁.has _).mpr (hhas hid)
  obtain ⟨htransforms, hother₃⟩ := foldl_modify (f := k) (fun _ => rfl) s₂.allTransforms s₂
    fun t ht => by
      rw [h₂.allTransforms_eq, h₁.allTransforms_eq] at ht
      obtain ⟨id, hid⟩ := (mem_allTransforms hc).mp ht
      exact (h₂.has _).mpr ((h₁.has _).mpr (hhas hid))
  rw [← hs₂] at hdefinitions hother₂
  rw [← hs₃] at htransforms hother₃
  refine ⟨unlink_rewired s, ?_, ?_, ?_⟩
  all_goals rw [hunlink]
  · intro x
    rw [Content.step.inj (hother₃ (.step x) fun _ _ => nofun),
      Content.step.inj (hother₂ (.step x) fun _ _ => nofun), resetStep]
    split
    · rename_i hx
      exact hsteps x hx
    · rename_i hx
      refine Content.step.inj (hother₁ (.step x) fun y hy heq => hx ?_)
      rwa [Entry.step.inj heq]
  · intro d hd
    rw [Content.definition.inj (hother₃ (.definition d) fun _ _ => nofun),
      hdefinitions d (by rwa [h₁.allDefinitions_eq])]
  · intro t ht
    rw [htransforms t (by rwa [h₂.allTransforms_eq, h₁.allTransforms_eq])]

/-- After the reset the targets have no links. -/
theorem Wellformed.ready (hs : s.Wellformed) {s₀ : Store} (h : Reset s s₀) :
    s₀.Ready s.runningSteps := by
  constructor
  case nodup =>
    have hids : (s.runningSteps.map fun x => (s₀.get x).id) =
        s.runningSteps.map fun x => (s.get x).id :=
      List.map_congr_left fun x hx => (h.rewired.idOf (hs.has_step hx) :)
    rw [hids]
    exact hs.nodup_runningSteps
  case has => exact fun x hx => (h.rewired.has _).mpr (hs.has_step hx)
  case definition =>
    intro d hd
    rw [h.rewired.allDefinitions_eq] at hd
    obtain ⟨id, hid⟩ := (mem_allDefinitions hs.consistent).mp hd
    exact ⟨(h.rewired.has _).mpr (hs.labelled hid).has, h.definition d hd⟩
  case transform =>
    intro t ht
    rw [h.rewired.allTransforms_eq] at ht
    obtain ⟨id, hid⟩ := (mem_allTransforms hs.consistent).mp ht
    exact ⟨(h.rewired.has _).mpr (hs.labelled hid).has, h.transform t ht⟩

theorem Reset.wellformed {s₀ : Store} (h : Reset s s₀) (hs : s.Wellformed) : s₀.Wellformed :=
  hs.relinked (h.rewired.relinked hs.consistent hs.labelled) h.rewired.steady

/-! ## Old links -/

private theorem nodup_eraseDups {α : Type} [DecidableEq α] (xs : List α) : xs.eraseDups.Nodup := by
  induction xs using List.reverseRecOn with
  | nil => exact List.nodup_nil
  | append_singleton xs x ih =>
      rw [List.eraseDups_append]
      by_cases hmem : x ∈ xs
      · simpa [List.removeAll, hmem] using ih
      · have hlast : List.removeAll [x] xs = [x] := by simp [List.removeAll, hmem]
        rw [hlast, List.eraseDups_cons, List.filter_nil, List.eraseDups_nil, List.nodup_append]
        refine ⟨ih, List.nodup_singleton x, ?_⟩
        rintro y hy z hz rfl
        rw [List.mem_singleton] at hz
        exact hmem (hz ▸ List.mem_eraseDups.mp hy)

theorem nodup_transformsOf (s : Store) (x : Ref Step) : (s.transformsOf x).Nodup := by
  unfold transformsOf
  split
  · exact nodup_eraseDups _
  · exact List.nodup_nil

/-- Adding what is missing to an old list gives a list if the old one begins it. -/
private theorem append_filter_eq_iff {α : Type} [DecidableEq α] {old new : List α}
    (hnew : new.Nodup) : old ++ new.filter (· ∉ old) = new ↔ old <+: new := by
  constructor
  · exact fun h => ⟨_, h⟩
  · rintro ⟨rest, rfl⟩
    have hdisjoint := (List.nodup_append.mp hnew).2.2
    have hold : old.filter (· ∉ old) = [] := by simp
    have hrest : rest.filter (· ∉ old) = rest := by
      refine List.filter_eq_self.mpr fun x hx => decide_eq_true fun hin => ?_
      exact hdisjoint x hin x hx rfl
    rw [List.filter_append, hold, hrest, List.nil_append]

/-- What a pass makes of a step, and when this is what the specification says. -/
theorem linked_iff (s : Store) (x : Ref Step) :
    ((s.definitionOf? x).or (s.resetStep x).definition = s.definitionOf? x ∧
      (s.resetStep x).transforms ++
        (s.transformsOf x).filter (· ∉ (s.resetStep x).transforms) = s.transformsOf x) ↔
      (x ∉ s.allSteps → s.Harmless x) := by
  rw [append_filter_eq_iff (s.nodup_transformsOf x)]
  unfold resetStep
  split
  · rename_i hx
    simp [hx]
  · rename_i hx
    have hor : (s.definitionOf? x).or (s.get x).definition = s.definitionOf? x ↔
        ((s.get x).definition.isSome → (s.definitionOf? x).isSome) := by
      cases s.definitionOf? x <;> cases (s.get x).definition <;> simp
    rw [hor]
    exact ⟨fun h _ => ⟨h.1, h.2⟩, fun h => ⟨(h hx).1, (h hx).2⟩⟩

end Store

/-- A change of links leaves the patterns readable. -/
theorem PatternsReadable.rewired {s s' : Store} (hpatterns : PatternsReadable s)
    (h : s.Rewired s') (hc : s.catalog.Consistent) (hlabelled : s.Labelled) :
    PatternsReadable s' := by
  constructor
  case definition =>
    intro d hd
    rw [h.allDefinitions_eq] at hd
    obtain ⟨id, hid⟩ := (Store.mem_allDefinitions hc).mp hd
    rw [h.definition_pattern (hlabelled hid).has]
    exact hpatterns.definition d hd
  case transform =>
    intro t ht
    rw [h.allTransforms_eq] at ht
    obtain ⟨id, hid⟩ := (Store.mem_allTransforms hc).mp ht
    rw [h.transform_pattern (hlabelled hid).has]
    exact hpatterns.transform t ht

namespace LinkingPass

variable {files : String → Prop} {linked : Prop} {s s' : Store}

theorem unusedDefinitions_eq (h : Rewired s s') (hc : s.catalog.Consistent) (hlabelled : s.Labelled)
    {steps : List (Ref Step)}
    (hsteps : ∀ d ∈ s.allDefinitions, (s'.get d).steps = s.stepsOfDefinition steps d) :
    unusedDefinitions s' = (s.allDefinitions.filter fun d =>
      ∀ x ∈ steps, s.definitionOf? x ≠ some d).map fun d => (s.get d).id := by
  unfold unusedDefinitions
  rw [h.allDefinitions_eq, List.filter_map, List.map_map]
  have hfilter : s.allDefinitions.filter ((fun d : Definition => d.steps.isEmpty) ∘ fun r => s'.get r) =
      s.allDefinitions.filter fun d => ∀ x ∈ steps, s.definitionOf? x ≠ some d := by
    refine List.filter_congr fun d hd => ?_
    rw [Function.comp_apply, hsteps d hd, stepsOfDefinition, List.isEmpty_map]
    rw [Bool.eq_iff_iff, List.isEmpty_iff, List.filter_eq_nil_iff]
    simp
  rw [hfilter]
  refine List.map_congr_left fun d hd => ?_
  obtain ⟨id, hid⟩ := (mem_allDefinitions hc).mp (List.mem_of_mem_filter hd)
  exact (h.idOf (hlabelled hid).has :)

/-- What is linked after the reset. -/
theorem done_of_reset (hs : s.Wellformed) (htexts : StepsAreTexts s)
    (hpatterns : PatternsReadable s) {w : LinkingWork} (hpass : w.pass = {})
    (h : Reset s w.store) :
    ∃ report w', linkAnew.run w = (.ok report, w') ∧ PassDone s w'.store report ∧
      ∀ x ∈ s.runningSteps,
        (w'.store.get x).definition = (s.definitionOf? x).or (s.resetStep x).definition ∧
        (w'.store.get x).transforms = (s.resetStep x).transforms ++
          (s.transformsOf x).filter (· ∉ (s.resetStep x).transforms) := by
  have hc := hs.consistent
  have hlabelled := hs.labelled
  have hrewired := h.rewired
  have hrunning := hrewired.runningSteps_eq hs
  have hhas : ∀ x ∈ s.runningSteps, s.Has (.step x) := fun x hx => hs.has_step hx
  have htexts' : ∀ x ∈ w.store.runningSteps, ∃ text, (w.store.get x).text = .text text := by
    intro x hx
    rw [hrunning] at hx
    have htext : (w.store.get x).text = (s.get x).text :=
      (congrArg Step.text (hrewired.step (hhas x hx)) :)
    rw [htext]
    exact htexts x hx
  -- the reset has changed neither what runs nor what is matched
  have hready : w.store.Ready w.store.runningSteps := by
    rw [hrunning]
    exact hs.ready h
  obtain ⟨w', hrun, hlinked⟩ := linkAnew_run hpass (h.wellformed hs) hready
  obtain ⟨hreached, hfailing⟩ := linkableSteps_of_texts
    (hpatterns.rewired hrewired hc hlabelled) htexts'
  rw [hreached, hrunning] at hlinked
  rw [hreached, hfailing, hrunning, passReport_nil] at hrun
  have hall := hrewired.trans hlinked.rewired
  have hsteps : ∀ d ∈ s.allDefinitions,
      (w'.store.get d).steps = s.stepsOfDefinition s.runningSteps d := by
    intro d hd
    obtain ⟨id, hid⟩ := (mem_allDefinitions hc).mp hd
    rw [hlinked.definition ((hrewired.has _).mpr (hlabelled hid).has)]
    dsimp only
    rw [h.definition d hd, List.nil_append, hrewired.stepsOfDefinition_eq hc hlabelled hhas]
  refine ⟨_, w', hrun, ?_, fun x hx => ?_⟩
  · constructor
    case rewired => exact hall
    case others =>
      intro x hx hout
      obtain ⟨id, hid⟩ := (mem_allSteps hc).mp hx
      rw [hlinked.step ((hrewired.has _).mpr (hlabelled hid).has), if_neg hout, h.step, resetStep,
        if_pos hx]
      exact ⟨rfl, rfl⟩
    case definition => exact hsteps
    case transform =>
      intro t ht
      obtain ⟨id, hid⟩ := (mem_allTransforms hc).mp ht
      rw [hlinked.transform ((hrewired.has _).mpr (hlabelled hid).has)]
      dsimp only
      rw [h.transform t ht, List.nil_append, hrewired.stepsOfTransform_eq hc hlabelled hhas]
    case report =>
      rw [hrewired.reportOf_eq hc hlabelled hhas, unusedDefinitions_eq hall hc hlabelled hsteps]
  · rw [hlinked.step ((hrewired.has _).mpr (hhas x hx)), if_pos hx, linkedStep,
      hrewired.definitionOf?_eq hc hlabelled (hhas x hx),
      hrewired.transformsOf_eq hc hlabelled (hhas x hx), h.step]
    exact ⟨rfl, rfl⟩

theorem run_run (s : Store) (warnings : List Warning) :
    run.run { store := s, warnings } = linkAnew.run { store := unlink s, warnings } := by
  rw [run_eq, Action.run_bind_ok (reset_run _)]

/-- **Every pass comes to its end**, whatever the steps and the patterns are. -/
theorem linkAll_run_ok (hs : s.Wellformed) (warnings : List Warning) :
    ∃ unused w', linkAll.run { store := s, warnings } =
      (.ok { (unlink s).passReport (unlink s).linkableSteps (unlink s).failingFeatures with
        unusedDefinitions := unused }, w') ∧
      LinkedUpTo (unlink s) (unlink s).linkableSteps w'.store := by
  have hreset := unlink_reset hs.consistent hs.labelled
  have hrun := run_run s warnings
  generalize unlink s = s₀ at hreset hrun
  have hready : s₀.Ready s₀.runningSteps := by
    rw [hreset.rewired.runningSteps_eq hs]
    exact hs.ready hreset
  obtain ⟨done, hdone, hlinked⟩ := linkAnew_run (w := { store := s₀, warnings }) rfl
    (hreset.wellformed hs) hready
  exact ⟨_, done.toWork, linkAll_run (hrun.trans hdone), hlinked⟩

/-- **After a pass the links are those of the specification, if and only if no step has an old one
in the way that the reset did not see.** -/
theorem linkAll_links (hs : s.Wellformed) (htexts : StepsAreTexts s)
    (hpatterns : PatternsReadable s) (warnings : List Warning) :
    ∃ report w', linkAll.run { store := s, warnings } = (.ok report, w') ∧
      PassDone s w'.store report ∧
      (ExactlyLinked s w'.store report ↔ ∀ x ∈ s.runningSteps, x ∉ s.allSteps → s.Harmless x) := by
  have hreset := unlink_reset hs.consistent hs.labelled
  have hrun := run_run s warnings
  generalize unlink s = s₀ at hreset hrun
  obtain ⟨report, done, hdone, hpass, hrunning⟩ :=
    done_of_reset (w := { store := s₀, warnings }) hs htexts hpatterns rfl hreset
  refine ⟨report, done.toWork, linkAll_run (hrun.trans hdone), hpass, ?_, ?_⟩
  · intro h x hx
    obtain ⟨hdefinition, htransforms⟩ := hrunning x hx
    obtain ⟨hdefinition', htransforms'⟩ := h.running x hx
    exact (s.linked_iff x).mp
      ⟨hdefinition.symm.trans hdefinition', htransforms.symm.trans htransforms'⟩
  · intro h
    refine ⟨hpass, fun x hx => ?_⟩
    obtain ⟨hdefinition, htransforms⟩ := hrunning x hx
    obtain ⟨hdefinition', htransforms'⟩ := (s.linked_iff x).mpr (h x hx)
    exact ⟨hdefinition.trans hdefinition', htransforms.trans htransforms'⟩

end LinkingPass

end StepTrace
