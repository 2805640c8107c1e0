import StepTrace.Proofs.Linking.Reached

/-!
# Patterns that cannot be searched with

A pattern that is no text or is refused as a regular expression cannot be searched with.  No step is
linked to what has such a pattern, so taking it out of the registry should not matter to a pass.
Among the refused patterns, however, some are not passed over: they are not `Readable`, and keep
every feature from being linked.  So a pass with the records does as one without them if and only if
none of them is of that sort, or it does not matter because there is another such pattern or no
feature (`Reached.linkAll_without_iff`).

With steps that are texts a pass comes to all of them or to none (`linkAll_texts`).
-/

namespace StepTrace

open Store LinkingPass Linking

namespace Linking

/-- A pattern cannot be searched with if it is no text, or a text that is refused. -/
theorem compiled?_eq_none_iff {pattern : Value} : compiled? pattern = none ↔
    ∀ text, pattern = .text text →
      ∃ refusal, Regex.read (String.ofList (cleanPattern text.toList)) = .error refusal := by
  cases pattern
  case text text =>
    unfold compiled? readPattern
    dsimp only
    rcases hread : Regex.read (String.ofList (cleanPattern text.toList)) with refusal | regex
    · refine ⟨fun _ => ?_, fun _ => ?_⟩
      · rintro _ ⟨⟩
        exact ⟨refusal, hread⟩
      · dsimp only
        cases faultOf? refusal <;> rfl
    · simp [hread]
  all_goals exact ⟨fun _ => nofun, fun _ => rfl⟩

/-- It is not passed over either if it is refused for anything but its form. -/
theorem not_readable_iff {pattern : Value} : ¬ Readable pattern ↔
    ∃ text refusal, pattern = .text text ∧
      Regex.read (String.ofList (cleanPattern text.toList)) = .error refusal ∧
      refusal ≠ .malformed := by
  cases pattern
  case text text =>
    unfold Readable readPattern
    dsimp only
    rcases hread : Regex.read (String.ofList (cleanPattern text.toList)) with refusal | regex
    · cases refusal <;> simp [hread, faultOf?, Except.toBool]
    · simp [hread, Except.toBool]
  all_goals
    refine ⟨fun h => absurd rfl h, ?_⟩
    rintro ⟨text, refusal, ⟨⟩, -⟩

end Linking

/-! ## Passes over texts -/

namespace Store

variable {s s' : Store}

theorem Rewired.patternsReadable_iff (h : Rewired s s') (hc : s.catalog.Consistent)
    (hlabelled : s.Labelled) : PatternsReadable s' ↔ PatternsReadable s := by
  have hdefinition : ∀ d ∈ s.allDefinitions, (s'.get d).pattern = (s.get d).pattern := by
    intro d hd
    obtain ⟨id, hid⟩ := (mem_allDefinitions hc).mp hd
    exact h.definition_pattern (hlabelled hid).has
  have htransform : ∀ t ∈ s.allTransforms, (s'.get t).pattern = (s.get t).pattern := by
    intro t ht
    obtain ⟨id, hid⟩ := (mem_allTransforms hc).mp ht
    exact h.transform_pattern (hlabelled hid).has
  constructor
  · rintro ⟨hdefinitions, htransforms⟩
    rw [h.allDefinitions_eq] at hdefinitions
    rw [h.allTransforms_eq] at htransforms
    exact ⟨fun d hd => hdefinition d hd ▸ hdefinitions d hd,
      fun t ht => htransform t ht ▸ htransforms t ht⟩
  · rintro ⟨hdefinitions, htransforms⟩
    refine ⟨fun d hd => ?_, fun t ht => ?_⟩
    · rw [h.allDefinitions_eq] at hd
      rw [hdefinition d hd]
      exact hdefinitions d hd
    · rw [h.allTransforms_eq] at ht
      rw [htransform t ht]
      exact htransforms t ht

/-- The steps that a pass comes to if they are texts. -/
def textsReached (s : Store) : List (Ref Step) :=
  if PatternsReadable s then s.runningSteps else []

/-- The features that fail if all steps are texts. -/
def textsFailing (s : Store) : List (Ref Feature) :=
  if PatternsReadable s then [] else s.allFeatures

/-- The definitions that none of the steps is to be linked to. -/
def unusedBy (s : Store) (steps : List (Ref Step)) : List (Ref Definition) :=
  s.allDefinitions.filter fun d => ∀ x ∈ steps, s.definitionOf? x ≠ some d

/-- The step as a pass that comes to the given steps leaves it. -/
def passedStep (s : Store) (steps : List (Ref Step)) (x : Ref Step) : Step :=
  if x ∈ steps then
    { s.resetStep x with
      definition := (s.definitionOf? x).or (s.resetStep x).definition
      transforms := (s.resetStep x).transforms ++
        (s.transformsOf x).filter (· ∉ (s.resetStep x).transforms) }
  else s.resetStep x

/-- What has been linked after the reset. -/
theorem Reset.passedStep {s₀ : Store} {done : List (Ref Step)} (hreset : Reset s s₀)
    (hs : s.Wellformed) (hlinked : LinkedUpTo s₀ done s') {x : Ref Step} (hx : s.Has (.step x)) :
    s'.get x = s.passedStep done x := by
  have hrewired := hreset.rewired
  rw [hlinked.step ((hrewired.has _).mpr hx), Store.passedStep]
  split
  · rw [linkedStep, hrewired.definitionOf?_eq hs.consistent hs.labelled hx,
      hrewired.transformsOf_eq hs.consistent hs.labelled hx, hreset.step]
  · exact hreset.step x

/-- What a definition knows of after the reset. -/
theorem Reset.definition_steps {s₀ : Store} {done : List (Ref Step)} (hreset : Reset s s₀)
    (hs : s.Wellformed) (hlinked : LinkedUpTo s₀ done s') (hdone : ∀ x ∈ done, s.Has (.step x))
    {d : Ref Definition} (hd : d ∈ s.allDefinitions) :
    (s'.get d).steps = s.stepsOfDefinition done d := by
  obtain ⟨id, hid⟩ := (mem_allDefinitions hs.consistent).mp hd
  rw [hlinked.definition ((hreset.rewired.has _).mpr (hs.labelled hid).has)]
  dsimp only
  rw [hreset.definition d hd, List.nil_append,
    hreset.rewired.stepsOfDefinition_eq hs.consistent hs.labelled hdone]

/-- What a transform knows of after the reset. -/
theorem Reset.transform_steps {s₀ : Store} {done : List (Ref Step)} (hreset : Reset s s₀)
    (hs : s.Wellformed) (hlinked : LinkedUpTo s₀ done s') (hdone : ∀ x ∈ done, s.Has (.step x))
    {t : Ref Transform} (ht : t ∈ s.allTransforms) :
    (s'.get t).steps = s.stepsOfTransform done t := by
  obtain ⟨id, hid⟩ := (mem_allTransforms hs.consistent).mp ht
  rw [hlinked.transform ((hreset.rewired.has _).mpr (hs.labelled hid).has)]
  dsimp only
  rw [hreset.transform t ht, List.nil_append,
    hreset.rewired.stepsOfTransform_eq hs.consistent hs.labelled hdone]

theorem linkableSteps_of_reset (hs : s.Wellformed) (htexts : StepsAreTexts s)
    (h : Reset s s') :
    s'.linkableSteps = s.textsReached ∧ s'.failingFeatures = s.textsFailing := by
  have hrunning := h.rewired.runningSteps_eq hs
  have hiff := h.rewired.patternsReadable_iff hs.consistent hs.labelled
  by_cases hreadable : PatternsReadable s
  · have htexts' : ∀ x ∈ s'.runningSteps, ∃ text, (s'.get x).text = .text text := by
      intro x hx
      rw [hrunning] at hx
      have htext : (s'.get x).text = (s.get x).text :=
        (congrArg Step.text (h.rewired.step (hs.has_step hx)) :)
      rw [htext]
      exact htexts x hx
    obtain ⟨hreached, hfailing⟩ := linkableSteps_of_texts (hiff.mpr hreadable) htexts'
    rw [hreached, hfailing, hrunning, textsReached, textsFailing, if_pos hreadable,
      if_pos hreadable]
    exact ⟨rfl, rfl⟩
  · have hnot : ¬ PatternsReadable s' := fun h' => hreadable (hiff.mp h')
    rw [textsReached, textsFailing, if_neg hreadable, if_neg hreadable]
    constructor
    · refine List.flatMap_eq_nil_iff.mpr fun r _ => ?_
      rw [stepsReached, if_neg hnot]
    · rw [failingFeatures, h.rewired.allFeatures_eq, List.filter_eq_self]
      intro r _
      rw [reachesAll, decide_eq_false hnot]
      rfl

end Store

namespace LinkingPass

variable {s : Store}

/-- **What a pass comes to, told of the registry before it**, by the steps that it reaches after the
reset and the features that fail. -/
theorem linkAll_passed (hs : s.Wellformed) {steps : List (Ref Step)} {failing : List (Ref Feature)}
    (hreached : (unlink s).linkableSteps = steps) (hfailing : (unlink s).failingFeatures = failing)
    (warnings : List Warning) :
    ∃ w, linkAll.run { store := s, warnings } =
        (.ok { s.passReport steps failing with
          unusedDefinitions := (s.unusedBy steps).map fun d => (s.get d).id }, w) ∧
      LinkedUpTo (unlink s) steps w.store := by
  have hc := hs.consistent
  have hlabelled := hs.labelled
  have hreset := unlink_reset hc hlabelled
  have hrun := run_run s warnings
  generalize unlink s = s₀ at hreset hrun hreached hfailing
  have hrewired := hreset.rewired
  have hready : s₀.Ready s₀.runningSteps := by
    rw [hrewired.runningSteps_eq hs]
    exact hs.ready hreset
  obtain ⟨done, hdone, hlinked⟩ := linkAnew_run (w := { store := s₀, warnings }) rfl
    (hreset.wellformed hs) hready
  have hhas : ∀ x ∈ steps, s.Has (.step x) := by
    intro x hx
    have hrunning := (linkableSteps_sublist s₀).subset (hreached ▸ hx)
    exact hs.has_step (hrewired.runningSteps_eq hs ▸ hrunning)
  dsimp only at hdone hlinked
  rw [hreached, hfailing] at hdone
  rw [hreached] at hlinked
  have hfailed : (failing.map fun r => (s₀.get r).id) = failing.map fun r => (s.get r).id := by
    refine List.map_congr_left fun r hr => ?_
    have hr : r ∈ s.allFeatures := by
      rw [← hrewired.allFeatures_eq]
      exact List.mem_of_mem_filter (hfailing ▸ hr)
    obtain ⟨id, -, hformed⟩ := hs.mem_allFeatures hr
    exact (hrewired.idOf hformed.formed.has :)
  have hunused : unusedDefinitions done.store =
      (s.unusedBy steps).map fun d => (s.get d).id :=
    unusedDefinitions_eq (hrewired.trans hlinked.rewired) hc hlabelled fun d hd =>
      hreset.definition_steps hs hlinked hhas hd
  rw [passReport, hrewired.reportOf_eq hc hlabelled hhas, hfailed, hunused] at hdone
  exact ⟨done.toWork, linkAll_run (hrun.trans hdone), hlinked⟩

/-- **A pass over steps that are texts comes to all of them or to none.** -/
theorem linkAll_texts (hs : s.Wellformed) (htexts : StepsAreTexts s) (warnings : List Warning) :
    ∃ w, linkAll.run { store := s, warnings } =
        (.ok { s.passReport s.textsReached s.textsFailing with
          unusedDefinitions := (s.unusedBy s.textsReached).map fun d => (s.get d).id }, w) ∧
      ∀ x, s.Has (.step x) → w.store.get x = s.passedStep s.textsReached x := by
  have hreset := unlink_reset hs.consistent hs.labelled
  obtain ⟨hreached, hfailing⟩ := linkableSteps_of_reset hs htexts hreset
  obtain ⟨w, hrun, hlinked⟩ := linkAll_passed hs hreached hfailing warnings
  exact ⟨w, hrun, fun x hx => hreset.passedStep hs hlinked hx⟩

end LinkingPass

/-! ## Registries without some of their records -/

namespace Store

variable {s : Store} {ids : List String}

/-- The registry without what is registered under the identifiers. -/
def without (s : Store) (ids : List String) : Store :=
  ids.foldl remove s

/-- A definition or transform is registered under the identifier, with such a pattern. -/
inductive Patterned (s : Store) (p : Value → Prop) (id : String) : Prop
  | definition {d : Ref Definition} (h : s.catalog.find? id = some (.definition d))
      (hpattern : p (s.get d).pattern)
  | transform {t : Ref Transform} (h : s.catalog.find? id = some (.transform t))
      (hpattern : p (s.get t).pattern)

theorem without_eq (s : Store) (ids : List String) :
    s.without ids = { s with catalog := ids.foldl Catalog.remove s.catalog } := by
  unfold without
  induction ids generalizing s with
  | nil => rfl
  | cons id ids ih =>
      rw [List.foldl_cons, List.foldl_cons, ih]
      rfl

theorem get_without {α : Type} [Record α] [HeapRecord α] (r : Ref α) :
    (s.without ids).get r = s.get r := by
  rw [without_eq]
  exact get_eq_of_content_eq (content_with_catalog s _ _)

theorem ofKind_without (hc : s.catalog.Consistent) (hlabelled : s.Labelled) (kind : Kind) :
    (s.without ids).catalog.ofKind kind =
      (s.catalog.ofKind kind).filter fun e => s.idOf e ∉ ids := by
  have hindex : ∀ c : Catalog, c.Consistent → (ids.foldl Catalog.remove c).index kind =
      ids.foldl OrderedMap.erase (c.index kind) := by
    induction ids with
    | nil => exact fun _ _ => rfl
    | cons id ids ih =>
        intro c hc
        rw [List.foldl_cons, List.foldl_cons, ih _ (hc.remove id), hc.index_remove]
  rw [without_eq]
  change (ids.foldl Catalog.remove s.catalog).ofKind kind = _
  rw [Catalog.ofKind, hindex _ hc, OrderedMap.values, OrderedMap.entries_foldl_erase,
    Catalog.ofKind, OrderedMap.values, List.filter_map]
  congr 1
  refine List.filter_congr fun entry hentry => ?_
  obtain ⟨id, e⟩ := entry
  have hfind := (hc.index_find?.mp
    (OrderedMap.find?_eq_some_of_mem (hc.nodup_index kind) hentry)).1
  rw [Function.comp_apply, (hlabelled hfind).idOf]

private theorem filterMap_filter_of {α β : Type} {pick : α → Option β} {p : α → Bool} {q : β → Bool}
    (h : ∀ a b, pick a = some b → p a = q b) (xs : List α) :
    (xs.filter p).filterMap pick = (xs.filterMap pick).filter q := by
  induction xs with
  | nil => rfl
  | cons a xs ih =>
      rw [List.filterMap_cons]
      cases hpick : pick a with
      | none =>
          rw [← ih, List.filter_cons]
          split
          · rw [List.filterMap_cons, hpick]
          · rfl
      | some b =>
          rw [List.filter_cons, List.filter_cons, h a b hpick, ← ih]
          split
          · rw [List.filterMap_cons, hpick]
          · rfl

section

variable (hc : s.catalog.Consistent) (hlabelled : s.Labelled)
include hc hlabelled

theorem allDefinitions_without : (s.without ids).allDefinitions =
    s.allDefinitions.filter fun d => (s.get d).id ∉ ids := by
  rw [allDefinitions, ofKind_without hc hlabelled]
  refine filterMap_filter_of (fun e d he => ?_) _
  split at he <;> cases he
  rfl

theorem allTransforms_without : (s.without ids).allTransforms =
    s.allTransforms.filter fun t => (s.get t).id ∉ ids := by
  rw [allTransforms, ofKind_without hc hlabelled]
  refine filterMap_filter_of (fun e t he => ?_) _
  split at he <;> cases he
  rfl

variable {p : Value → Prop} (hids : ∀ id ∈ ids, s.Patterned p id)
include hids

/-- What is of another kind stays. -/
theorem ofKind_without_of_patterned {kind : Kind} (hkind : ¬ kind.IsTarget) :
    (s.without ids).catalog.ofKind kind = s.catalog.ofKind kind := by
  rw [ofKind_without hc hlabelled, List.filter_eq_self]
  intro e he
  obtain ⟨id, hid, rfl⟩ := hc.mem_ofKind.mp he
  rw [(hlabelled hid).idOf, decide_eq_true_iff]
  intro hmem
  cases hids id hmem with
  | definition h _ | transform h _ =>
      rw [hid] at h
      cases h
      exact hkind trivial

theorem allFeatures_without : (s.without ids).allFeatures = s.allFeatures := by
  rw [allFeatures, ofKind_without_of_patterned hc hlabelled hids id, ← allFeatures]

theorem allSteps_without : (s.without ids).allSteps = s.allSteps := by
  rw [allSteps, ofKind_without_of_patterned hc hlabelled hids id, ← allSteps]

end

/-! ## What cannot be searched with is not found -/

theorem compiled?_of_firstMatch? {text : String} {d : Ref Definition} {m : Regex.Match}
    (h : s.firstMatch? text = some (d, m)) : compiled? (s.get d).pattern ≠ none := by
  obtain ⟨d', -, hfound⟩ := List.exists_of_findSome?_eq_some h
  simp only [Option.bind_eq_some_iff, Option.map_eq_some_iff, Prod.mk.injEq] at hfound
  obtain ⟨regex, hregex, m', -, rfl, -⟩ := hfound
  rw [hregex]
  exact nofun

private theorem findSome?_filter_of {α β : Type} {f : α → Option β} {p : α → Bool} {xs : List α}
    (h : ∀ x ∈ xs, p x = false → f x = none) : (xs.filter p).findSome? f = xs.findSome? f := by
  induction xs with
  | nil => rfl
  | cons x xs ih =>
      have hrest := ih fun y hy => h y (List.mem_cons_of_mem _ hy)
      rw [List.filter_cons, List.findSome?_cons]
      cases hx : p x with
      | true => rw [if_pos rfl, List.findSome?_cons, hrest]
      | false => rw [if_neg nofun, hrest, h x (List.mem_cons_self ..) hx]

section

variable (hc : s.catalog.Consistent) (hlabelled : s.Labelled)
  (hids : ∀ id ∈ ids, s.Patterned (compiled? · = none) id)
include hc hlabelled hids

theorem compiled?_of_definition {d : Ref Definition} (hd : d ∈ s.allDefinitions)
    (hmem : (s.get d).id ∈ ids) : compiled? (s.get d).pattern = none := by
  obtain ⟨id, hid⟩ := (mem_allDefinitions hc).mp hd
  have hname : (s.get d).id = id := (hlabelled hid).idOf
  rw [hname] at hmem
  cases hids id hmem with
  | definition h hpattern =>
      rw [hid] at h
      cases h
      exact hpattern
  | transform h _ =>
      rw [hid] at h
      cases h

theorem compiled?_of_transform {t : Ref Transform} (ht : t ∈ s.allTransforms)
    (hmem : (s.get t).id ∈ ids) : compiled? (s.get t).pattern = none := by
  obtain ⟨id, hid⟩ := (mem_allTransforms hc).mp ht
  have hname : (s.get t).id = id := (hlabelled hid).idOf
  rw [hname] at hmem
  cases hids id hmem with
  | definition h _ =>
      rw [hid] at h
      cases h
  | transform h hpattern =>
      rw [hid] at h
      cases h
      exact hpattern

theorem firstMatch?_without (text : String) :
    (s.without ids).firstMatch? text = s.firstMatch? text := by
  unfold firstMatch?
  rw [allDefinitions_without hc hlabelled]
  simp only [get_without]
  refine findSome?_filter_of fun d hd hout => ?_
  have hmem : (s.get d).id ∈ ids := by simpa using hout
  rw [compiled?_of_definition hc hlabelled hids hd hmem]
  rfl

theorem transformsIn_without (text : String) :
    (s.without ids).transformsIn text = s.transformsIn text := by
  unfold transformsIn
  rw [allTransforms_without hc hlabelled, List.filter_filter]
  simp only [get_without]
  refine List.filter_congr fun t ht => ?_
  by_cases hmem : (s.get t).id ∈ ids
  · rw [compiled?_of_transform hc hlabelled hids ht hmem]
    rfl
  · rw [decide_eq_true hmem, Bool.and_true]

theorem stepMatch?_without (x : Ref Step) : (s.without ids).stepMatch? x = s.stepMatch? x := by
  rw [stepMatch?, stepMatch?, get_without, firstMatch?_without hc hlabelled hids]

theorem definitionOf?_without (x : Ref Step) :
    (s.without ids).definitionOf? x = s.definitionOf? x := by
  rw [definitionOf?, definitionOf?, stepMatch?_without hc hlabelled hids]

theorem transformsOf_without (x : Ref Step) :
    (s.without ids).transformsOf x = s.transformsOf x := by
  have hcaptured : (s.without ids).capturedTransforms = s.capturedTransforms := by
    funext m
    rw [capturedTransforms, capturedTransforms,
      funext (transformsIn_without hc hlabelled hids)]
  rw [transformsOf, transformsOf, stepMatch?_without hc hlabelled hids, hcaptured]

/-! ## A pass does not miss it -/

theorem runningSteps_without : (s.without ids).runningSteps = s.runningSteps := by
  have hfeatures := allFeatures_without hc hlabelled hids
  unfold runningSteps
  rw [hfeatures, without_eq]
  rfl

theorem passReport_without (steps : List (Ref Step)) (failed : List (Ref Feature)) :
    (s.without ids).passReport steps failed = s.passReport steps failed := by
  unfold passReport reportOf
  rw [funext (stepMatch?_without hc hlabelled hids)]
  simp only [get_without]

theorem passedStep_without (steps : List (Ref Step)) (x : Ref Step) :
    (s.without ids).passedStep steps x = s.passedStep steps x := by
  have hreset : (s.without ids).resetStep x = s.resetStep x := by
    rw [resetStep, resetStep, allSteps_without hc hlabelled hids, get_without]
  rw [passedStep, passedStep, hreset, definitionOf?_without hc hlabelled hids,
    transformsOf_without hc hlabelled hids]

theorem unusedBy_without (steps : List (Ref Step)) : (s.without ids).unusedBy steps =
    (s.unusedBy steps).filter fun d => (s.get d).id ∉ ids := by
  unfold unusedBy
  rw [allDefinitions_without hc hlabelled, List.filter_comm]
  simp only [definitionOf?_without hc hlabelled hids]

/-- Every definition without a pattern to search for is unused. -/
theorem mem_unusedBy (steps : List (Ref Step)) {d : Ref Definition} {id : String} (hid : id ∈ ids)
    (h : s.catalog.find? id = some (.definition d)) : d ∈ s.unusedBy steps := by
  have hd : d ∈ s.allDefinitions := (mem_allDefinitions hc).mpr ⟨id, h⟩
  have hname : (s.get d).id = id := (hlabelled h).idOf
  refine List.mem_filter.mpr ⟨hd, decide_eq_true fun x _ hx => ?_⟩
  rw [definitionOf?, Option.map_eq_some_iff] at hx
  obtain ⟨⟨d', m⟩, hmatch, rfl⟩ := hx
  exact compiled?_of_firstMatch? hmatch
    (compiled?_of_definition hc hlabelled hids hd (hname ▸ hid))

omit hids in
theorem patternsReadable_iff_without : PatternsReadable s ↔
    PatternsReadable (s.without ids) ∧ ∀ id ∈ ids, ¬ s.Patterned (¬ Readable ·) id := by
  have hdefinition : ∀ {id d}, s.catalog.find? id = some (.definition d) → (s.get d).id = id :=
    fun h => (hlabelled h).idOf
  have htransform : ∀ {id t}, s.catalog.find? id = some (.transform t) → (s.get t).id = id :=
    fun h => (hlabelled h).idOf
  constructor
  · rintro ⟨hdefinitions, htransforms⟩
    refine ⟨⟨fun d hd => ?_, fun t ht => ?_⟩, fun id _ hpatterned => ?_⟩
    · rw [allDefinitions_without hc hlabelled] at hd
      rw [get_without]
      exact hdefinitions d (List.mem_of_mem_filter hd)
    · rw [allTransforms_without hc hlabelled] at ht
      rw [get_without]
      exact htransforms t (List.mem_of_mem_filter ht)
    · cases hpatterned with
      | definition h hpattern => exact hpattern (hdefinitions _ ((mem_allDefinitions hc).mpr ⟨id, h⟩))
      | transform h hpattern => exact hpattern (htransforms _ ((mem_allTransforms hc).mpr ⟨id, h⟩))
  · rintro ⟨⟨hdefinitions, htransforms⟩, hpassed⟩
    rw [allDefinitions_without hc hlabelled] at hdefinitions
    rw [allTransforms_without hc hlabelled] at htransforms
    simp only [get_without] at hdefinitions htransforms
    refine ⟨fun d hd => ?_, fun t ht => ?_⟩
    · by_cases hmem : (s.get d).id ∈ ids
      · obtain ⟨id, hid⟩ := (mem_allDefinitions hc).mp hd
        by_contra hpattern
        rw [hdefinition hid] at hmem
        exact hpassed id hmem (.definition hid hpattern)
      · exact hdefinitions d (List.mem_filter.mpr ⟨hd, decide_eq_true hmem⟩)
    · by_cases hmem : (s.get t).id ∈ ids
      · obtain ⟨id, hid⟩ := (mem_allTransforms hc).mp ht
        by_contra hpattern
        rw [htransform hid] at hmem
        exact hpassed id hmem (.transform hid hpattern)
      · exact htransforms t (List.mem_filter.mpr ⟨ht, decide_eq_true hmem⟩)

end

theorem Wellformed.remove (hs : s.Wellformed) (id : String) : (s.remove id).Wellformed := by
  have hold : ∀ {id' e}, (s.remove id).catalog.find? id' = some e →
      s.catalog.find? id' = some e := by
    intro id' e he
    rw [Store.remove, Catalog.find?_remove] at he
    split at he
    · cases he
    · exact he
  refine hs.steady (steady_remove s id) (hs.consistent.remove id) ?_ fun he _ => hold he
  intro id' e he
  have hplaced := hs.labelled (hold he)
  refine ⟨(has_with_catalog s _ e).mpr hplaced.has, ?_, he⟩
  rw [Store.remove, idOf_eq, content_with_catalog, ← idOf_eq, hplaced.idOf]

theorem Wellformed.without (hs : s.Wellformed) (ids : List String) :
    (s.without ids).Wellformed := by
  unfold Store.without
  induction ids generalizing s with
  | nil => exact hs
  | cons id ids ih => exact ih (hs.remove id)

end Store

/-! ## With and without -/

/-- Two passes over `s` do the same, except that the second, without the records under the
identifiers, does not list their definitions as unused. -/
structure AgreeBut (s : Store) (ids : List String) (report report₀ : LinkReport) (w w₀ : Work) :
    Prop where
  steps : ∀ x, s.Has (.step x) → w₀.store.get x = w.store.get x
  linked : report₀.linkedSteps = report.linkedSteps
  unmatched : report₀.unmatchedSteps = report.unmatchedSteps
  failed : report₀.failedFeatures = report.failedFeatures
  unused : report₀.unusedDefinitions = report.unusedDefinitions.filter (· ∉ ids)
  listed : ∀ id ∈ ids, ∀ d, s.catalog.find? id = some (.definition d) →
    id ∈ report.unusedDefinitions

variable {s : Store} {ids : List String} {built : List Path}

/-- Passes over the registry with and without the records come to the same, unless one of the
patterns alone keeps the features from being linked. -/
theorem Store.texts_without (hs : s.Wellformed)
    (hids : ∀ id ∈ ids, s.Patterned (compiled? · = none) id)
    (h : (∀ id ∈ ids, ¬ s.Patterned (¬ Readable ·) id) ∨ ¬ PatternsReadable (s.without ids) ∨
      s.allFeatures = []) :
    (s.without ids).textsReached = s.textsReached ∧
      (s.without ids).textsFailing = s.textsFailing := by
  have hiff : PatternsReadable s ↔
      PatternsReadable (s.without ids) ∧ ∀ id ∈ ids, ¬ s.Patterned (¬ Readable ·) id :=
    patternsReadable_iff_without hs.consistent hs.labelled
  unfold textsReached textsFailing
  rw [runningSteps_without hs.consistent hs.labelled hids,
    allFeatures_without hs.consistent hs.labelled hids]
  rcases h with hpassed | hnot | hnone
  · have hsame : PatternsReadable (s.without ids) ↔ PatternsReadable s :=
      ⟨fun h => hiff.mpr ⟨h, hpassed⟩, fun h => (hiff.mp h).1⟩
    simp only [hsame, and_self]
  · have hnot' : ¬ PatternsReadable s := fun h => hnot (hiff.mp h).1
    simp only [if_neg hnot, if_neg hnot', and_self]
  · rw [runningSteps, hnone]
    simp

/-- **A pattern that cannot be searched with removes only its own record, unless it cannot be passed
over.**  Passes with and without such records come to their end; they agree if and only if each of
the patterns can be passed over, or there is another one that cannot, or no feature to link.  With
one that cannot be passed over every feature fails, and nothing is linked. -/
theorem Reached.linkAll_without_iff (h : Reached IsFeaturePath built s) (htexts : StepsAreTexts s)
    (hids : ∀ id ∈ ids, s.Patterned (compiled? · = none) id) (warnings : List Warning) :
    ∃ report w report₀ w₀, linkAll.run { store := s, warnings } = (.ok report, w) ∧
      linkAll.run { store := s.without ids, warnings } = (.ok report₀, w₀) ∧
      (AgreeBut s ids report report₀ w w₀ ↔
        (∀ id ∈ ids, ¬ s.Patterned (¬ Readable ·) id) ∨ ¬ PatternsReadable (s.without ids) ∨
          s.allFeatures = []) ∧
      ((∃ id ∈ ids, s.Patterned (¬ Readable ·) id) →
        report.linkedSteps = [] ∧ report.unmatchedSteps = [] ∧
          report.failedFeatures = s.allFeatures.map fun r => (s.get r).id) := by
  have hs := h.wellformed
  have hc := hs.consistent
  have hlabelled := hs.labelled
  have htexts₀ : StepsAreTexts (s.without ids) := by
    intro x hx
    rw [runningSteps_without hc hlabelled hids] at hx
    rw [get_without]
    exact htexts x hx
  obtain ⟨w, hrun, hsteps⟩ := linkAll_texts hs htexts warnings
  obtain ⟨w₀, hrun₀, hsteps₀⟩ := linkAll_texts (hs.without ids) htexts₀ warnings
  rw [passReport_without hc hlabelled hids, unusedBy_without hc hlabelled hids] at hrun₀
  have hhas : ∀ {e}, s.Has e → (s.without ids).Has e := by
    intro e he
    rw [without_eq]
    exact (has_with_catalog s _ e).mpr he
  refine ⟨_, w, _, w₀, hrun, hrun₀, ?_, ?_⟩
  · constructor
    · intro hagree
      have hfailed := hagree.failed
      by_contra hcondition
      push Not at hcondition
      obtain ⟨⟨id, hid, hpatterned⟩, hwithout, hfeatures⟩ := hcondition
      have hnot : ¬ PatternsReadable s := fun hreadable =>
        ((patternsReadable_iff_without hc hlabelled).mp hreadable).2 id hid hpatterned
      rw [textsFailing, textsFailing, if_pos hwithout, if_neg hnot] at hfailed
      exact hfeatures (List.map_eq_nil_iff.mp hfailed.symm)
    · intro hcondition
      obtain ⟨hreached, hfailing⟩ := texts_without hs hids hcondition
      rw [hreached, hfailing]
      refine ⟨fun x hx => ?_, rfl, rfl, rfl, ?_, ?_⟩
      · rw [hsteps₀ x (hhas hx), hsteps x hx, hreached, passedStep_without hc hlabelled hids]
      · simp only [get_without, List.filter_map]
        rfl
      · intro id hid d hd
        have hname : (s.get d).id = id := (hlabelled hd).idOf
        exact List.mem_map.mpr ⟨d, mem_unusedBy hc hlabelled hids _ hid hd, hname⟩
  · rintro ⟨id, hid, hpatterned⟩
    have hnot : ¬ PatternsReadable s := fun hreadable =>
      ((patternsReadable_iff_without hc hlabelled).mp hreadable).2 id hid hpatterned
    rw [textsReached, textsFailing, if_neg hnot, if_neg hnot]
    exact ⟨rfl, rfl, rfl⟩

/-! ## A porch -/

private def porchCall : BuildCall :=
  ⟨.ofString "house/porch.feature", .ofFields [("feature", .ofFields [("children", .list [.ofFields [
    ("background", .ofFields [("steps", .list [.ofFields [("keyword", .text "Given "),
      ("text", .text "a lamp")]])])]])])], [], none⟩

/-- A porch with one step and its definition, behind another one with the given pattern. -/
private def porch (pattern : String) : Store :=
  (((porchCall.apply {}).register
    { id := "extra", keyword := "Given", pattern := .text pattern : Definition }).1.register
      { id := "lamp", keyword := "Given", pattern := .text "lamp" : Definition }).1

private theorem reached_porch (pattern : String)
    (hfree : (porchCall.apply {}).catalog.find? "extra" = none)
    (hfree' : ((porchCall.apply {}).register
      { id := "extra", keyword := "Given", pattern := .text pattern : Definition }).1.catalog.find?
        "lamp" = none) :
    Reached IsFeaturePath [.ofString "house/porch.feature"] (porch pattern) := by
  refine .define (.define (.build .empty porchCall ⟨Path.proper_ofString _, by decide⟩
    List.not_mem_nil) _ ?_) _ ?_
  all_goals
    intro e he
    simp_all

private theorem patterned_porch {pattern : String} {p : Value → Prop}
    (h : (porch pattern).catalog.find? "extra" = some (.definition ⟨0⟩))
    (hp : p ((porch pattern).get (⟨0⟩ : Ref Definition)).pattern) :
    ∀ id ∈ ["extra"], (porch pattern).Patterned p id := by
  intro id hid
  rw [List.mem_singleton.mp hid]
  exact .definition h hp

private theorem texts_porch {pattern : String} (hrunning : (porch pattern).runningSteps = [⟨0⟩])
    (htext : ((porch pattern).get (⟨0⟩ : Ref Step)).text.isText "a lamp") :
    StepsAreTexts (porch pattern) := by
  intro x hx
  rw [hrunning, List.mem_singleton] at hx
  exact ⟨"a lamp", by rw [hx]; exact Value.isText_iff.mp htext⟩

/-- A malformed pattern on the porch is passed over. -/
theorem linkAll_without_iff_porch : ∃ report w report₀ w₀,
    linkAll.run { store := porch "(" } = (.ok report, w) ∧
    linkAll.run { store := (porch "(").without ["extra"] } = (.ok report₀, w₀) ∧
    AgreeBut (porch "(") ["extra"] report report₀ w w₀ := by
  obtain ⟨report, w, report₀, w₀, hrun, hrun₀, hiff, -⟩ :=
    (reached_porch "(" (by decide +kernel) (by decide +kernel)).linkAll_without_iff
      (texts_porch (by decide +kernel) (by decide +kernel))
      (patterned_porch (by decide +kernel) (Option.isNone_iff_eq_none.mp (by decide +kernel))) []
  refine ⟨report, w, report₀, w₀, hrun, hrun₀, hiff.mpr (Or.inl ?_)⟩
  intro id hid hpatterned
  rw [List.mem_singleton.mp hid] at hpatterned
  have hfind : (porch "(").catalog.find? "extra" = some (.definition ⟨0⟩) := by decide +kernel
  cases hpatterned with
  | definition h hpattern =>
      rw [hfind] at h
      cases h
      exact hpattern (by decide +kernel)
  | transform h _ =>
      rw [hfind] at h
      cases h

private def oversized : String :=
  "a\x7b4294967296\x7d"

/-- **A pattern that counts too far keeps the porch from being linked.** -/
theorem oversized_count_fails : ¬ ∀ (built : List Path) (s : Store) (ids : List String),
    Reached IsFeaturePath built s → StepsAreTexts s →
    (∀ id ∈ ids, s.Patterned (compiled? · = none) id) →
    ∀ warnings, ∃ report w report₀ w₀, linkAll.run { store := s, warnings } = (.ok report, w) ∧
      linkAll.run { store := s.without ids, warnings } = (.ok report₀, w₀) ∧
      AgreeBut s ids report report₀ w w₀ := by
  intro hagree
  obtain ⟨report, w, report₀, w₀, hrun, hrun₀, hsame⟩ := hagree _ (porch oversized) ["extra"]
    (reached_porch _ (by decide +kernel) (by decide +kernel))
    (texts_porch (by decide +kernel) (by decide +kernel))
    (patterned_porch (by decide +kernel) (Option.isNone_iff_eq_none.mp (by decide +kernel))) []
  have hfailed : (linkAll.run { store := porch oversized }).1.toOption.map
      (·.failedFeatures) = some ["house/porch.feature"] := by decide +kernel
  have hfailed₀ : (linkAll.run { store := (porch oversized).without ["extra"] }).1.toOption.map
      (·.failedFeatures) = some [] := by decide +kernel
  rw [hrun] at hfailed
  rw [hrun₀] at hfailed₀
  have hall : report.failedFeatures = ["house/porch.feature"] := Option.some.inj hfailed
  have hnone : report₀.failedFeatures = [] := Option.some.inj hfailed₀
  have hboth := hsame.failed
  rw [hall, hnone] at hboth
  cases hboth

end StepTrace
