import StepTrace.Proofs.Twins.Unordered

/-!
# Linking registries that are equal up to order

What a step is to be linked to is found in the definitions and transforms in their order, which is
the same in both registries; in what order the features come is of no importance to it, and neither
is it to what a pass comes to in each of them.  So partners among the steps are linked to partners
(`AgreeInTargets.linkAll`).
-/

namespace StepTrace

open Store HeapRecord Linking LinkingPass

/-! ## Lists of partners -/

section

variable {α β γ δ : Type} {R : α → β → Prop} {P : γ → δ → Prop} {xs : List α} {ys : List β}

private theorem rel_findSome? {f : α → Option γ} {g : β → Option δ} (h : List.Forall₂ R xs ys)
    (hfg : ∀ a b, R a b → Option.Rel P (f a) (g b)) :
    Option.Rel P (xs.findSome? f) (ys.findSome? g) := by
  induction h with
  | nil => exact .none
  | @cons a b _ _ hab _ ih =>
      rw [List.findSome?_cons, List.findSome?_cons]
      have hfirst := hfg a b hab
      generalize f a = found, g b = found' at hfirst
      cases hfirst with
      | some hcd => exact .some hcd
      | none => exact ih

private theorem rel_forall {p : α → Prop} {q : β → Prop} (h : List.Forall₂ R xs ys)
    (hpq : ∀ a b, R a b → (p a ↔ q b)) : (∀ a ∈ xs, p a) ↔ ∀ b ∈ ys, q b := by
  induction h with
  | nil => simp
  | cons hab _ ih => rw [List.forall_mem_cons, List.forall_mem_cons, hpq _ _ hab, ih]

private theorem rel_takeWhile {p : α → Bool} {q : β → Bool} (h : List.Forall₂ R xs ys)
    (hpq : ∀ a b, R a b → p a = q b) : List.Forall₂ R (xs.takeWhile p) (ys.takeWhile q) := by
  induction h with
  | nil => exact .nil
  | cons hab _ ih =>
      rw [List.takeWhile_cons, List.takeWhile_cons, hpq _ _ hab]
      split
      · exact .cons hab ih
      · exact .nil

/-- Of partners the first ones are kept on both sides. -/
private theorem rel_eraseDups [DecidableEq α] [DecidableEq β] (hR : Relator.BiUnique R) :
    ∀ {xs : List α} {ys : List β}, List.Forall₂ R xs ys → List.Forall₂ R xs.eraseDups ys.eraseDups
  | [], _, h => by
      cases h
      exact .nil
  | a :: xs, _, h => by
      cases h with
      | @cons _ b _ ys hab hrest =>
          rw [List.eraseDups_cons, List.eraseDups_cons]
          refine .cons hab (rel_eraseDups hR (List.rel_filter ?_ hrest))
          intro c d hcd
          have hiff : c = a ↔ d = b :=
            ⟨fun heq => hR.2 (heq ▸ hcd) hab, fun heq => hR.1 (heq ▸ hcd) hab⟩
          simp [hiff]
termination_by xs => xs.length
decreasing_by
  exact Nat.lt_succ_of_le (List.length_filter_le _ _)

end

/-! ## What there is to be found -/

namespace AgreeInTargets

variable {ρ : Pairing} {s s' : Store} (h : AgreeInTargets ρ s s')
include h

theorem definitions : ρ.Refs s.allDefinitions s'.allDefinitions := by
  refine List.rel_filterMap (R := ρ) ?_ ?_
  · intro e e' he
    have hkind := h.kind_eq he
    cases e <;> cases e' <;> first | cases hkind; done | skip
    case definition.definition => exact .some he
    all_goals exact .none
  · refine List.forall₂_map_left_iff.mpr (List.forall₂_map_right_iff.mpr ?_)
    exact List.Forall₂.imp (fun _ _ hxy => hxy.2) (h.index .definition trivial)

theorem transforms : ρ.Refs s.allTransforms s'.allTransforms := by
  refine List.rel_filterMap (R := ρ) ?_ ?_
  · intro e e' he
    have hkind := h.kind_eq he
    cases e <;> cases e' <;> first | cases hkind; done | skip
    case transform.transform => exact .some he
    all_goals exact .none
  · refine List.forall₂_map_left_iff.mpr (List.forall₂_map_right_iff.mpr ?_)
    exact List.Forall₂.imp (fun _ _ hxy => hxy.2) (h.index .transform trivial)

theorem definition_pattern (d d' : Ref Definition) (hd : ρ (.definition d) (.definition d')) :
    (s.get d).pattern = (s'.get d').pattern := by
  have halike := h.content hd
  cases halike with
  | definition hsame => exact (congrArg Definition.pattern hsame :)

theorem transform_pattern (t t' : Ref Transform) (ht : ρ (.transform t) (.transform t')) :
    (s.get t).pattern = (s'.get t').pattern := by
  have halike := h.content ht
  cases halike with
  | transform hsame => exact (congrArg Transform.pattern hsame :)

theorem patternsReadable_iff : PatternsReadable s ↔ PatternsReadable s' := by
  have hdefinitions := rel_forall h.definitions
    (p := fun d => Readable (s.get d).pattern) (q := fun d => Readable (s'.get d).pattern)
    fun d d' hd => by rw [h.definition_pattern d d' hd]
  have htransforms := rel_forall h.transforms
    (p := fun t => Readable (s.get t).pattern) (q := fun t => Readable (s'.get t).pattern)
    fun t t' ht => by rw [h.transform_pattern t t' ht]
  exact ⟨fun hs => ⟨hdefinitions.mp hs.definition, htransforms.mp hs.transform⟩,
    fun hs => ⟨hdefinitions.mpr hs.definition, htransforms.mpr hs.transform⟩⟩

/-- The patterns that are searched for are the same. -/
theorem patternCache_definitions : List.Forall₂ (fun p p' : Regex × Ref Definition =>
    p.1 = p'.1 ∧ ρ (.definition p.2) (.definition p'.2))
    s.patternCache.definitions s'.patternCache.definitions := by
  refine List.rel_filterMap ?_ h.definitions
  intro d d' hd
  have hpattern := h.definition_pattern d d' hd
  dsimp only
  rw [hpattern]
  cases compiled? (s'.get d').pattern with
  | none => exact .none
  | some regex => exact .some ⟨rfl, hd⟩

theorem firstMatch? (text : String) :
    Option.Rel (fun p p' => ρ (.definition p.1) (.definition p'.1) ∧ p.2 = p'.2)
      (s.firstMatch? text) (s'.firstMatch? text) := by
  refine rel_findSome? h.definitions fun d d' hd => ?_
  have hpattern := h.definition_pattern d d' hd
  rw [hpattern]
  cases compiled? (s'.get d').pattern with
  | none => exact .none
  | some regex =>
      rw [Option.bind_some, Option.bind_some]
      cases regex.search? text with
      | none => exact .none
      | some m => exact .some ⟨hd, rfl⟩

theorem transformsIn (text : String) : ρ.Refs (s.transformsIn text) (s'.transformsIn text) := by
  refine List.rel_filter ?_ h.transforms
  intro t t' ht
  have hpattern := h.transform_pattern t t' ht
  dsimp only
  rw [hpattern]

theorem capturedTransforms (m : Regex.Match) :
    ρ.Refs (s.capturedTransforms m) (s'.capturedTransforms m) := by
  have hunique : Relator.BiUnique fun t t' : Ref Transform => ρ (Record.entry t) (Record.entry t') :=
    ⟨fun _ _ _ hac hbc => entry_injective (h.biUnique.1 hac hbc),
      fun _ _ _ hab hac => entry_injective (h.biUnique.2 hab hac)⟩
  refine rel_eraseDups hunique ?_
  generalize m.groups.filterMap (fun group => group.filter (· ≠ "")) = captured
  exact List.rel_flatMap (R := Eq) (List.forall₂_eq_eq_eq ▸ rfl)
    fun text _ htext => htext ▸ h.transformsIn text

/-! ## What a step is to be linked to -/

variable {x x' : Ref Step}

theorem step (hx : ρ (.step x) (.step x')) : (s.get x).Alike ρ (s'.get x') := by
  have halike := h.content hx
  cases halike with
  | step _ hsame => exact hsame

theorem step_text (hx : ρ (.step x) (.step x')) : (s.get x).text = (s'.get x').text :=
  (congrArg Step.text (h.step hx).bare :)

theorem stepMatch? (hx : ρ (.step x) (.step x')) :
    Option.Rel (fun p p' => ρ (.definition p.1) (.definition p'.1) ∧ p.2 = p'.2)
      (s.stepMatch? x) (s'.stepMatch? x') := by
  rw [Store.stepMatch?, Store.stepMatch?, h.step_text hx]
  exact h.firstMatch? _

theorem definitionOf? (hx : ρ (.step x) (.step x')) :
    Option.Rel (fun d d' => ρ (.definition d) (.definition d')) (s.definitionOf? x)
      (s'.definitionOf? x') := by
  have hmatch := h.stepMatch? hx
  unfold Store.definitionOf?
  generalize s.stepMatch? x = found, s'.stepMatch? x' = found' at hmatch
  cases hmatch with
  | none => exact .none
  | some hd => exact .some hd.1

theorem transformsOf (hx : ρ (.step x) (.step x')) :
    ρ.Refs (s.transformsOf x) (s'.transformsOf x') := by
  have hmatch := h.stepMatch? hx
  unfold Store.transformsOf
  generalize s.stepMatch? x = found, s'.stepMatch? x' = found' at hmatch
  cases hmatch with
  | none => exact .nil
  | @some p p' hp =>
      obtain ⟨d, m⟩ := p
      obtain ⟨d', m'⟩ := p'
      obtain ⟨-, rfl⟩ := hp
      exact h.capturedTransforms m

/-- On top of links that are alike, the links that are specified are alike. -/
theorem linkedStep (hx : ρ (.step x) (.step x')) :
    (s.linkedStep x).Alike ρ (s'.linkedStep x') := by
  have hsame := h.step hx
  refine ⟨hsame.bare, ?_, ?_⟩
  · have hold := hsame.definition
    have hnew := h.definitionOf? hx
    unfold Store.linkedStep
    dsimp only
    generalize s.definitionOf? x = found, s'.definitionOf? x' = found' at hnew
    cases hnew with
    | none => exact hold
    | some hd => exact .cons hd .nil
  · refine List.rel_append hsame.transforms (List.rel_filter ?_ (h.transformsOf hx))
    intro t t' ht
    simp only [decide_eq_true_eq]
    exact not_congr (hsame.transforms.mem_iff h.biUnique ht)

/-! ## What a pass comes to -/

theorem searchable_eq (hx : ρ (.step x) (.step x')) : s.searchable x = s'.searchable x' := by
  have hempty : s.patternCache.definitions.isEmpty = s'.patternCache.definitions.isEmpty := by
    rw [Bool.eq_iff_iff, List.isEmpty_iff_length_eq_zero, List.isEmpty_iff_length_eq_zero,
      h.patternCache_definitions.length_eq]
  rw [searchable, searchable, h.step_text hx, hempty]

variable {c c' : Ref Scenario} {r r' : Ref Feature}

theorem scenario_steps (hc : ρ (.scenario c) (.scenario c')) :
    ρ.Refs (s.get c).steps (s'.get c').steps := by
  have halike := h.content hc
  cases halike with
  | scenario _ hsame => exact hsame.steps

/-- Partners among the features run partners, in the same order. -/
theorem stepContainers (hr : ρ (.feature r) (.feature r')) :
    ρ.Refs (s.stepContainers (s.get r)) (s'.stepContainers (s'.get r')) := by
  have halike := h.content hr
  cases halike with
  | feature _ hsame =>
      refine List.rel_append hsame.background (List.rel_flatMap hsame.scenarios ?_)
      intro c c' hcc'
      have hkind := h.kind_eq hcc'
      have hcontent := h.content hcc'
      cases c <;> cases c' <;> first | cases hkind; done | skip
      case scenario.scenario => exact .cons hcc' .nil
      case outline.outline =>
        cases hcontent with
        | outline _ hsame => exact hsame.scenarios

theorem featureSteps (hr : ρ (.feature r) (.feature r')) :
    ρ.Refs (s.featureSteps r) (s'.featureSteps r') :=
  List.rel_flatMap (h.stepContainers hr) fun _ _ hc => h.scenario_steps hc

theorem stepsReached (hr : ρ (.feature r) (.feature r')) :
    ρ.Refs (s.stepsReached r) (s'.stepsReached r') := by
  unfold Store.stepsReached
  by_cases hreadable : PatternsReadable s
  · rw [if_pos hreadable, if_pos (h.patternsReadable_iff.mp hreadable)]
    exact rel_takeWhile (h.featureSteps hr) fun _ _ hx => h.searchable_eq hx
  · rw [if_neg hreadable, if_neg fun hs' => hreadable (h.patternsReadable_iff.mpr hs')]
    exact .nil

theorem mem_allSteps_iff (hs : s.catalog.Consistent) (hs' : s'.catalog.Consistent)
    (hx : ρ (.step x) (.step x')) : x ∈ s.allSteps ↔ x' ∈ s'.allSteps := by
  rw [mem_allSteps hs, mem_allSteps hs']
  exact exists_congr fun id => h.find?_iff hx

/-- A registered feature has a partner among the registered features. -/
theorem partner_feature (hs : s.catalog.Consistent) (hs' : s'.catalog.Consistent)
    (hr : r ∈ s.allFeatures) : ∃ r' ∈ s'.allFeatures, ρ (.feature r) (.feature r') := by
  obtain ⟨id, hid⟩ := (mem_allFeatures hs).mp hr
  obtain ⟨e', he', hee'⟩ := h.partner hid
  have hkind := h.kind_eq hee'
  cases e' <;> first | cases hkind; done | skip
  case feature r' => exact ⟨r', (mem_allFeatures hs').mpr ⟨id, he'⟩, hee'⟩

theorem partner_feature' (hs : s.catalog.Consistent) (hs' : s'.catalog.Consistent)
    (hr' : r' ∈ s'.allFeatures) : ∃ r ∈ s.allFeatures, ρ (.feature r) (.feature r') := by
  obtain ⟨id, hid⟩ := (mem_allFeatures hs').mp hr'
  obtain ⟨e, he, hee'⟩ := h.partner' hid
  have hkind := h.kind_eq hee'
  cases e <;> first | cases hkind; done | skip
  case feature r => exact ⟨r, (mem_allFeatures hs).mpr ⟨id, he⟩, hee'⟩

/-- **A pass comes to partners**, in whatever order it comes to them. -/
theorem mem_linkableSteps_iff (hs : s.catalog.Consistent) (hs' : s'.catalog.Consistent)
    (hx : ρ (.step x) (.step x')) : x ∈ s.linkableSteps ↔ x' ∈ s'.linkableSteps := by
  rw [linkableSteps, linkableSteps, List.mem_flatMap, List.mem_flatMap]
  constructor
  · rintro ⟨r, hr, hmem⟩
    obtain ⟨r', hr', hrr'⟩ := h.partner_feature hs hs' hr
    exact ⟨r', hr', ((h.stepsReached hrr').mem_iff h.biUnique hx).mp hmem⟩
  · rintro ⟨r', hr', hmem⟩
    obtain ⟨r, hr, hrr'⟩ := h.partner_feature' hs hs' hr'
    exact ⟨r, hr, ((h.stepsReached hrr').mem_iff h.biUnique hx).mpr hmem⟩

/-! ## Whole passes -/

/-- Changes of links leave the targets in their order. -/
theorem rewired {s₁ s₁' : Store} (hr : Rewired s s₁) (hr' : Rewired s' s₁')
    (hstep : ∀ x x', ρ (.step x) (.step x') → (s₁.get x).Alike ρ (s₁'.get x')) :
    AgreeInTargets ρ s₁ s₁' where
  toAgree := h.toAgree.rewired hr hr' hstep
  index kind hkind := by
    rw [hr.catalog, hr'.catalog]
    exact h.index kind hkind

theorem unlink (hs : s.catalog.Consistent) (hs' : s'.catalog.Consistent) (hlabelled : s.Labelled)
    (hlabelled' : s'.Labelled) : AgreeInTargets ρ (LinkingPass.unlink s) (LinkingPass.unlink s') := by
  have hreset := unlink_reset hs hlabelled
  have hreset' := unlink_reset hs' hlabelled'
  refine h.rewired hreset.rewired hreset'.rewired fun x x' hx => ?_
  have hsame := h.step hx
  rw [hreset.step, hreset'.step, resetStep, resetStep]
  by_cases hmem : x ∈ s.allSteps
  · rw [if_pos hmem, if_pos ((h.mem_allSteps_iff hs hs' hx).mp hmem)]
    exact ⟨hsame.bare, .nil, .nil⟩
  · rw [if_neg hmem, if_neg fun hmem' => hmem ((h.mem_allSteps_iff hs hs' hx).mpr hmem')]
    exact hsame

/-- **After a pass registries that agree up to order still do**, the links of their steps
included. -/
theorem linkAll (hs : s.Wellformed) (hs' : s'.Wellformed) (warnings warnings' : List Warning) :
    ∃ report w report' w', LinkingPass.linkAll.run { store := s, warnings } = (.ok report, w) ∧
      LinkingPass.linkAll.run { store := s', warnings := warnings' } = (.ok report', w') ∧
      AgreeInTargets ρ w.store w'.store := by
  obtain ⟨unused, w, hrun, hlinked⟩ := linkAll_run_ok hs warnings
  obtain ⟨unused', w', hrun', hlinked'⟩ := linkAll_run_ok hs' warnings'
  refine ⟨_, w, _, w', hrun, hrun', ?_⟩
  have hreset := h.unlink hs.consistent hs'.consistent hs.labelled hs'.labelled
  have hc := (unlink_reset hs.consistent hs.labelled).wellformed hs |>.consistent
  have hc' := (unlink_reset hs'.consistent hs'.labelled).wellformed hs' |>.consistent
  refine hreset.rewired hlinked.rewired hlinked'.rewired fun x x' hx => ?_
  obtain ⟨hhas, hhas'⟩ := hreset.has hx
  rw [hlinked.step hhas, hlinked'.step hhas']
  by_cases hmem : x ∈ (LinkingPass.unlink s).linkableSteps
  · rw [if_pos hmem, if_pos ((hreset.mem_linkableSteps_iff hc hc' hx).mp hmem)]
    exact hreset.linkedStep hx
  · rw [if_neg hmem, if_neg fun hmem' => hmem ((hreset.mem_linkableSteps_iff hc hc' hx).mpr hmem')]
    exact hreset.step hx

end AgreeInTargets

end StepTrace
