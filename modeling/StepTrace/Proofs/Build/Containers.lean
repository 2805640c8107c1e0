import StepTrace.Proofs.Build.Outlines

/-!
# Backgrounds, scenarios and outlines

What the builders of the children of a feature leave behind, whether they come to their end or not:
of the feature only the background, the list of its containers and its count have changed, and what
is in it is registered under its number (`FeatureBuilt`).  A builder that comes to its end leaves the
count of scenarios exact (`Counted`), and all that it has registered belongs to the container or the
background that has come in (`Joined`, `Backed`).
-/

namespace StepTrace.Build

open Store

variable {s s' s'' : Store} {r : Ref Feature}

/-! ## The feature while it grows -/

/-- Of the feature only background, containers and count have changed, and all are placed. -/
structure FeatureBuilt (r : Ref Feature) (s s' : Store) : Prop where
  grows : Grows (PartsBelow (s.get r).id) (· = .feature r) s s'
  placed : s'.FeaturePlaced r (s.get r).id
  frame : { s'.get r with background := none, scenarios := [], totalScenarios := 0 } =
    { s.get r with background := none, scenarios := [], totalScenarios := 0 }

namespace FeatureBuilt

theorem refl (h : s.FeaturePlaced r (s.get r).id) : FeatureBuilt r s s :=
  ⟨.refl s, h, rfl⟩

theorem id_eq (h : FeatureBuilt r s s') : (s'.get r).id = (s.get r).id :=
  (congrArg Feature.id h.frame :)

theorem placed_self (h : FeatureBuilt r s s') : s'.FeaturePlaced r (s'.get r).id := by
  rw [h.id_eq]
  exact h.placed

theorem trans (h : FeatureBuilt r s s') (h' : FeatureBuilt r s' s'') : FeatureBuilt r s s'' := by
  obtain ⟨hgrows, hplaced, hframe⟩ := h'
  rw [h.id_eq] at hgrows hplaced
  exact ⟨h.grows.trans hgrows (fun _ _ => id) fun _ heq _ => heq, hplaced, hframe.trans h.frame⟩

/-- Tags may come in at any time. -/
theorem grows_nowhere (h : FeatureBuilt r s s') (hgrows : Grows nowhere untouched s' s'') :
    FeatureBuilt r s s'' := by
  refine h.trans ⟨hgrows.mono (fun _ _ => False.elim) fun _ => False.elim, ?_, ?_⟩
  · exact h.placed_self.grows hgrows (fun _ _ _ => id) (fun _ _ => id) id
  · rw [hgrows.get_feature h.placed.placed.has id]

end FeatureBuilt

/-- While the store grows at the next number, the feature stays as it is. -/
theorem featureBuilt_of_grows (h : s.FeaturePlaced r (s.get r).id)
    (hgrows : Grows (PartsUnder (nextPart s r)) untouched s s') : FeatureBuilt r s s' := by
  have hsame : s'.get r = s.get r := hgrows.get_feature h.placed.has id
  have hplaced : s'.FeaturePlaced r (s.get r).id := by
    constructor
    case placed => exact h.placed.grows hgrows fun e he => not_under_part_self _ _ he.1
    case background =>
      rw [hsame]
      exact h.background.grows_part hgrows (isLabel_scenario _)
        (backgroundLabel_ne_scenarioLabel _) fun _ _ => id
    case containers =>
      rw [hsame]
      exact h.containers.grows_part hgrows (isLabel_scenario _)
        (fun _ => scenarioLabel_ne_next) fun _ _ => id
  exact ⟨hgrows.mono (fun _ _ => .of_part (isLabel_scenario _)) fun _ => False.elim, hplaced,
    by rw [hsame]⟩

/-! ## Steps of placed containers -/

theorem placed_stepsBuilt {c : Container} {id : String} (h : s.Placed c.entry id)
    (hbuilt : StepsBuilt c s s') : s'.Placed c.entry id := by
  refine h.grows hbuilt.grows fun e he => he.2 ?_
  rw [h.idOf]

theorem scenarioPlaced_stepsBuilt {feature : String} {outline : Option String} {x : Ref Scenario}
    {id : String} (h : s.ScenarioPlaced feature outline x id)
    (hbuilt : StepsBuilt (.scenario x) s s') : s'.ScenarioPlaced feature outline x id := by
  have hframe : { s'.get x with steps := [] } = { s.get x with steps := [] } :=
    Content.scenario.inj hbuilt.stepless
  have hsteps := hbuilt.placed
  rw [show s.idOf (Container.entry (.scenario x)) = id from h.placed.idOf] at hsteps
  constructor
  case placed => exact placed_stepsBuilt (c := .scenario x) h.placed hbuilt
  case featureId =>
    rw [← h.featureId]
    exact (congrArg Scenario.featureId hframe :)
  case outlineId =>
    rw [← h.outlineId]
    exact (congrArg Scenario.outlineId hframe :)
  case steps => exact hsteps

/-- A background or scenario that has just come in is placed. -/
theorem scenarioPlaced_register {site : Site} {label : String} {kind : ScenarioKind} {node : Value}
    {x : Scenario} (hx : ScenarioComesIn site s r label kind node x) :
    (s.register x).1.ScenarioPlaced (s.get r).id none (s.register x).2 (part (s.get r).id label) := by
  have hget := get_register_self s x
  refine ⟨hx.id ▸ placed_register s x, by rw [hget, hx.featureId], by rw [hget, hx.outlineId], ?_⟩
  rw [hget, hx.steps]
  exact .nil

/-! ## Counting -/

/-- The scenarios of a container that run. -/
def runs (s : Store) : Container → List (Ref Scenario)
  | .scenario r => [r]
  | .outline r => (s.get r).scenarios

theorem executableScenarios_eq (s : Store) (f : Feature) :
    s.executableScenarios f = f.scenarios.flatMap (runs s) :=
  rfl

/-- The count is that of the scenarios that run, and every outline is exploded. -/
structure Counted (s : Store) (r : Ref Feature) : Prop where
  total : (s.get r).totalScenarios = (s.executableScenarios (s.get r)).length
  exploded : ∀ o, .outline o ∈ (s.get r).scenarios → Exploded s o

/-- A feature without containers has nothing to count. -/
theorem counted_of_empty (hscenarios : (s.get r).scenarios = [])
    (htotal : (s.get r).totalScenarios = 0) : Counted s r := by
  constructor
  · rw [htotal, executableScenarios_eq, hscenarios]
    rfl
  · rw [hscenarios]
    exact fun _ h => absurd h List.not_mem_nil

/-- Tables and outlines that stay as they are stay exploded. -/
theorem exploded_of_same {o : Ref Outline} (h : Exploded s o) (ho : s'.get o = s.get o)
    (hexamples : ∀ e ∈ (s.get o).examples, s'.get e = s.get e) : Exploded s' o := by
  unfold Exploded expectedScenarios at h ⊢
  rw [ho, h]
  congr 1
  exact List.map_congr_left fun e he => by rw [hexamples e he]

section

variable {region : String → Entry → Prop} {id : String}

/-- The containers of a feature stay as they are while only the feature itself is changed. -/
theorem runs_grows (h : s.FeaturePlaced r id) (hgrows : Grows region (· = .feature r) s s')
    {c : Container} (hc : c ∈ (s.get r).scenarios) : runs s' c = runs s c := by
  cases c with
  | scenario x => rfl
  | outline o =>
      obtain ⟨i, hi⟩ := h.containers.exists_of_mem hc
      exact congrArg Outline.scenarios (hgrows.get_outline (OutlinePlaced.placed hi).has nofun)

theorem exploded_grows (h : s.FeaturePlaced r id) (hgrows : Grows region (· = .feature r) s s')
    {o : Ref Outline} (ho : .outline o ∈ (s.get r).scenarios) (hexploded : Exploded s o) :
    Exploded s' o := by
  obtain ⟨i, hi⟩ := h.containers.exists_of_mem ho
  refine exploded_of_same hexploded (hgrows.get_outline (OutlinePlaced.placed hi).has nofun) ?_
  intro e he
  obtain ⟨j, hj, -⟩ := (OutlinePlaced.examples hi).exists_of_mem he
  exact hgrows.get_examples hj.has nofun

theorem counted_grows (h : s.FeaturePlaced r id) (hgrows : Grows region (· = .feature r) s s')
    (hscenarios : (s'.get r).scenarios = (s.get r).scenarios)
    (htotal : (s'.get r).totalScenarios = (s.get r).totalScenarios) (hcounted : Counted s r) :
    Counted s' r := by
  constructor
  · rw [htotal, hcounted.total, executableScenarios_eq, executableScenarios_eq, hscenarios]
    congr 1
    exact List.flatMap_congr fun c hc => (runs_grows h hgrows hc).symm
  · intro o ho
    rw [hscenarios] at ho
    exact exploded_grows h hgrows ho (hcounted.exploded o ho)

/-- One more container is counted. -/
theorem counted_push (h : s.FeaturePlaced r id) (hgrows : Grows region (· = .feature r) s s')
    {c : Container} (hscenarios : (s'.get r).scenarios = (s.get r).scenarios ++ [c])
    (htotal : (s'.get r).totalScenarios = (s.get r).totalScenarios + (runs s' c).length)
    (hc : ∀ o, c = .outline o → Exploded s' o) (hcounted : Counted s r) : Counted s' r := by
  constructor
  · have hsame : (s.get r).scenarios.flatMap (runs s') = (s.get r).scenarios.flatMap (runs s) :=
      List.flatMap_congr fun c hc => runs_grows h hgrows hc
    rw [htotal, hcounted.total, executableScenarios_eq, executableScenarios_eq, hscenarios]
    simp [hsame]
  · intro o ho
    rw [hscenarios, List.mem_append, List.mem_singleton] at ho
    rcases ho with ho | ho
    · exact exploded_grows h hgrows ho (hcounted.exploded o ho)
    · exact hc o ho.symm

end

/-! ## What has come in -/

/-- A container has come in as the last one of the feature, with all that was registered. -/
structure Joined (r : Ref Feature) (c : Container) (s s' : Store) : Prop where
  background : (s'.get r).background = (s.get r).background
  scenarios : (s'.get r).scenarios = (s.get r).scenarios ++ [c]
  admits : Admits (· ∈ s'.containerParts c) s s'

/-- A background of the node has come in with all that was registered, one step for each element, in
the place of an earlier one. -/
structure Backed (r : Ref Feature) (node : Value) (b : Ref Scenario) (s s' : Store) : Prop where
  background : (s'.get r).background = some b
  scenarios : (s'.get r).scenarios = (s.get r).scenarios
  steps : (s'.get b).steps.length = (node.itemsOf "steps").length
  admits : Admits (· ∈ s'.scenarioParts b) s s'

/-- A container has come in under the next number and is listed, with a count for the feature that
is not said to be right. -/
structure Listed (r : Ref Feature) (c : Container) (total : Nat) (s s' : Store) : Prop where
  grows : Grows (PartsUnder (nextPart s r)) (· = .feature r) s s'
  feature : s'.get r = { s.get r with
    scenarios := (s.get r).scenarios ++ [c], totalScenarios := total }
  placed : s'.ContainerPlaced (s.get r).id c (nextPart s r)

namespace Listed

variable {c : Container} {total total' : Nat}

/-- A container that is placed joins the feature. -/
theorem of_grows (h : s.FeaturePlaced r (s.get r).id)
    (hgrows : Grows (PartsUnder (nextPart s r)) untouched s s')
    (hplaced : s'.ContainerPlaced (s.get r).id c (nextPart s r)) {f : Feature → Feature}
    (hid : ∀ x, (f x).id = x.id) (hf : f (s.get r) = { s.get r with
      scenarios := (s.get r).scenarios ++ [c], totalScenarios := total }) :
    Listed r c total s (s'.modify r f) := by
  have hchange : Grows nowhere (· = .feature r) s' (s'.modify r f) := .modify_hole hid rfl
  refine ⟨hgrows.modify_last r hid, ?_, ?_⟩
  · rw [get_modify_self s' r f (hgrows.has h.placed.has), hgrows.get_feature h.placed.has id, hf]
  · exact hplaced.grows hchange (fun _ _ _ => id) (sparesParts_feature r)

/-- Only the count is changed. -/
theorem recount (hl : Listed r c total s s') (h : s.FeaturePlaced r (s.get r).id)
    {f : Feature → Feature} (hid : ∀ x, (f x).id = x.id)
    (hf : f (s'.get r) = { s'.get r with totalScenarios := total' }) :
    Listed r c total' s (s'.modify r f) := by
  have hchange : Grows nowhere (· = .feature r) s' (s'.modify r f) := .modify_hole hid rfl
  refine ⟨hl.grows.trans hchange (fun _ _ => False.elim) fun _ heq _ => heq, ?_, ?_⟩
  · rw [get_modify_self s' r f (hl.grows.has h.placed.has), hf, hl.feature]
  · exact hl.placed.grows hchange (fun _ _ _ => id) (sparesParts_feature r)

/-- The container grows where it stands. -/
theorem grow (hl : Listed r c total s s') (h : s.FeaturePlaced r (s.get r).id)
    (hnew : ¬ s.Has c.entry) (hgrows : Grows (PartsBelow (nextPart s r)) (· = c.entry) s' s'')
    (hplaced : s''.ContainerPlaced (s.get r).id c (nextPart s r)) : Listed r c total s s'' := by
  have hne : Entry.feature r ≠ c.entry := by cases c <;> exact nofun
  refine ⟨hl.grows.trans_fresh hnew hgrows fun _ _ he => he.1, ?_, hplaced⟩
  rw [hgrows.get_feature (hl.grows.has h.placed.has) hne, hl.feature]

/-- Of the feature nothing but the list and the count has changed. -/
theorem built (hl : Listed r c total s s') (h : s.FeaturePlaced r (s.get r).id) :
    FeatureBuilt r s s' := by
  obtain ⟨hgrows, hget, hplaced⟩ := hl
  have hall : s'.FeaturePlaced r (s.get r).id := by
    constructor
    case placed => exact h.placed.grows hgrows fun e he => not_under_part_self _ _ he.1
    case background =>
      rw [hget]
      exact h.background.grows_part hgrows (isLabel_scenario _)
        (backgroundLabel_ne_scenarioLabel _) (sparesParts_feature r)
    case containers =>
      rw [hget]
      exact (h.containers.grows_part hgrows (isLabel_scenario _)
        (fun _ => scenarioLabel_ne_next) (sparesParts_feature r)).append hplaced
  exact ⟨hgrows.mono (fun _ _ => .of_part (isLabel_scenario _)) fun _ => id, hall, by rw [hget]⟩

theorem joined (hl : Listed r c total s s') (hadmits : Admits (· ∈ s'.containerParts c) s s') :
    Joined r c s s' :=
  ⟨by rw [hl.feature], by rw [hl.feature], hadmits⟩

/-- If the count of the feature was right, it is so with the scenarios of the container. -/
theorem counted (hl : Listed r c total s s') (h : s.FeaturePlaced r (s.get r).id)
    (htotal : total = (s.get r).totalScenarios + (runs s' c).length)
    (hc : ∀ o, c = .outline o → Exploded s' o) (hcounted : Counted s r) : Counted s' r :=
  counted_push h hl.grows (by rw [hl.feature]) (by rw [hl.feature, ← htotal]) hc hcounted

end Listed

/-! ## Building backgrounds -/

/-- The steps of a container that is placed and has none yet. -/
theorem steps_built_scenario {feature : String} {outline : Option String} {x : Ref Scenario}
    {partId : String} (h : s.ScenarioPlaced feature outline x partId) (site : Site)
    (node : Value) :
    Ensures (steps site node (.scenario x)) s
      (fun s' => Grows (PartsBelow partId) (· = .scenario x) s s' ∧
        s'.ScenarioPlaced feature outline x partId) fun _ s' =>
      (s'.get x).steps.length = (s.get x).steps.length + (node.itemsOf "steps").length ∧
      Admits (· ∈ s'.scenarioParts x) s s' := by
  have hid : s.idOf (Container.scenario x).entry = partId := h.placed.idOf
  refine (steps_built (c := .scenario x) h.placed.has ?_ site node).weaken ?_ ?_
  · rw [hid]
    exact h.steps
  · intro s' hbuilt
    have hgrows := hbuilt.grows
    rw [hid] at hgrows
    exact ⟨hgrows, scenarioPlaced_stepsBuilt h hbuilt⟩
  · rintro _ s' - ⟨refs, hlength, hsteps, hadmits⟩
    have hsteps : (s'.get x).steps = (s.get x).steps ++ refs := hsteps
    refine ⟨by rw [hsteps, List.length_append, hlength], hadmits.mono ?_⟩
    rintro _ ⟨step, hstep, rfl⟩
    rw [mem_scenarioParts, hsteps]
    exact .inr ⟨step, List.mem_append_right _ hstep, rfl⟩

/-- **A background is registered with its steps, and takes the place of an earlier one.** -/
theorem background_built (h : s.FeaturePlaced r (s.get r).id) (site : Site) (node : Value) :
    Ensures (background site (some r) node) s (FeatureBuilt r s) fun _ s' =>
      (Counted s r → Counted s' r) ∧ ∃ b, Backed r node b s s' := by
  refine ensures_background (.refl h) fun x hx => ?_
  rw [ensures_bind_change]
  set partId := part (s.get r).id backgroundLabel
  set s₁ := (s.register x).1
  set ref := (s.register x).2
  set s₂ := s₁.modify r _ with hs₂
  have hregister : Grows (PartsUnder partId) untouched s s₁ := .register_part s hx.id fun _ => trivial
  have hgrows₂ : Grows (PartsUnder partId) (· = .feature r) s s₂ := hregister.modify_last r fun _ => rfl
  have hchange : Grows nowhere (· = .feature r) s₁ s₂ := .modify_hole (fun _ => rfl) rfl
  have hget₂ : s₂.get r = { s.get r with background := some ref } := by
    rw [hs₂, get_modify_self s₁ r _ (hregister.has h.placed.has),
      hregister.get_feature h.placed.has id]
  have hplaced₂ : s₂.ScenarioPlaced (s.get r).id none ref partId :=
    (scenarioPlaced_register hx).grows hchange (fun _ _ _ => id) (sparesParts_feature r).rows
  -- whatever the steps come to, the new background is placed
  have hall : ∀ {s₃}, Grows (PartsBelow partId) (· = .scenario ref) s₂ s₃ →
      Grows (PartsUnder partId) (· = .feature r) s s₃ ∧
        s₃.get r = { s.get r with background := some ref } := by
    intro s₃ hsteps
    refine ⟨hgrows₂.trans_fresh (not_has_register_self s x) hsteps fun _ _ he => he.1, ?_⟩
    rw [hsteps.get_feature (hgrows₂.has h.placed.has) nofun, hget₂]
  refine (steps_built_scenario hplaced₂ site node).weaken ?_ ?_
  · rintro s₃ ⟨hsteps, hplaced₃⟩
    obtain ⟨hgrows, hget₃⟩ := hall hsteps
    have hplaced : s₃.FeaturePlaced r (s.get r).id := by
      constructor
      case placed => exact h.placed.grows hgrows fun e he => not_under_part_self _ _ he.1
      case background =>
        rw [hget₃]
        rintro _ ⟨⟩
        exact hplaced₃
      case containers =>
        rw [hget₃]
        exact h.containers.grows_part hgrows isLabel_background
          (fun _ _ => (backgroundLabel_ne_scenarioLabel _).symm) (sparesParts_feature r)
    exact ⟨hgrows.mono (fun _ _ => .of_part isLabel_background) fun _ => id, hplaced,
      by rw [hget₃]⟩
  · rintro _ s₃ ⟨hsteps, hplaced₃⟩ ⟨hlength, hadmits⟩
    obtain ⟨hgrows, hget₃⟩ := hall hsteps
    refine ⟨counted_grows h hgrows (by rw [hget₃]) (by rw [hget₃]), ref, by rw [hget₃], by rw [hget₃],
      ?_, ?_⟩
    · have hempty : (s₂.get ref).steps = [] := by
        rw [hchange.get_scenario (has_register_self s x) nofun, get_register_self, hx.steps]
      rw [hlength, hempty, List.length_nil, Nat.zero_add]
    · have hregistered : Admits (· ∈ s₃.scenarioParts ref) s s₂ :=
        (Admits.register s (List.mem_cons_self ..)).trans (.modify s₁ r _)
      exact hregistered.trans hadmits

/-! ## Building plain scenarios -/

theorem scenarioPlaced_retags {feature : String} {outline : Option String} {x : Ref Scenario}
    {partId : String} (h : s.ScenarioPlaced feature outline x partId)
    (hretags : Retags (.scenario x) s s') : s'.ScenarioPlaced feature outline x partId := by
  have hframe : { s'.get x with tags := [] } = { s.get x with tags := [] } :=
    Content.scenario.inj hretags.untagged
  have hsteps : (s'.get x).steps = (s.get x).steps := (congrArg Scenario.steps hframe :)
  constructor
  case placed => exact h.placed.grows hretags.grows fun _ => id
  case featureId =>
    rw [← h.featureId]
    exact (congrArg Scenario.featureId hframe :)
  case outlineId =>
    rw [← h.outlineId]
    exact (congrArg Scenario.outlineId hframe :)
  case steps =>
    rw [hsteps]
    exact h.steps.grows hretags.grows (fun _ _ _ _ _ => id) nofun

/-- Counting tags changes neither the feature nor its count, nor the container that has come in. -/
theorem countScenarios_built {t : Store} (hbuilt : FeatureBuilt r s t) (count : Int)
    (known : Option (List (Ref Tag))) (tags : List (Ref Tag))
    (hcounted : Counted s r → Counted t r) {c : Container} (hjoined : Joined r c s t) :
    Ensures (countScenarios count known [] tags) t (FeatureBuilt r s) fun _ s' =>
      (Counted s r → Counted s' r) ∧ ∃ c, Joined r c s s' := by
  refine (countScenarios_grows t count known [] tags).keep.weaken
    (fun _ h => hbuilt.grows_nowhere h) ?_
  rintro _ s' - ⟨hgrows, -⟩
  have hsame : s'.get r = t.get r := hgrows.get_feature hbuilt.placed.placed.has id
  have haside : Grows nowhere (· = .feature r) t s' := hgrows.set_aside
  refine ⟨fun h => ?_, c, hsame ▸ hjoined.background, hsame ▸ hjoined.scenarios, ?_⟩
  · exact counted_grows hbuilt.placed haside (by rw [hsame]) (by rw [hsame]) (hcounted h)
  · have hmem : c ∈ (t.get r).scenarios := by
      rw [hjoined.scenarios]
      exact List.mem_append_right _ (List.mem_singleton_self c)
    obtain ⟨i, hi⟩ := hbuilt.placed.containers.exists_of_mem hmem
    rw [containerParts_grows hi hgrows fun _ _ => id]
    exact hjoined.admits.trans (.nowhere hgrows)

/-- **A plain scenario is registered with its steps under the next number.** -/
theorem plainScenario_built (h : s.FeaturePlaced r (s.get r).id) (site : Site) (node : Value) :
    Ensures (plainScenario site r node) s (FeatureBuilt r s) fun _ s' =>
      (Counted s r → Counted s' r) ∧ ∃ c, Joined r c s s' := by
  refine ensures_plainScenario (.refl h) fun x hx => ?_
  unfold fillScenario
  set s₁ := (s.register x).1
  set ref := (s.register x).2
  have hnew : ¬ s.Has (.scenario ref) := not_has_register_self s x
  have hgrows₁ : Grows (PartsUnder (nextPart s r)) untouched s s₁ :=
    .register_part s hx.id fun _ => trivial
  have hplaced₁ := scenarioPlaced_register hx
  have hretag : ∀ {s₂}, Retags (.scenario ref) s₁ s₂ →
      Grows (PartsUnder (nextPart s r)) untouched s s₂ := fun h₂ =>
    hgrows₁.trans_fresh hnew h₂.grows fun _ _ => False.elim
  refine ensures_bind_check (featureBuilt_of_grows h hgrows₁) fun tags _ => ?_
  refine .bind_of (declareAll_retags hplaced₁.placed.has nofun nofun site.file tags)
    (fun _ h₂ => featureBuilt_of_grows h (hretag h₂)) fun _ s₂ hretags _ => ?_
  -- the scenario joins the feature before its steps are built
  rw [ensures_bind_change]
  set s₃ := s₂.modify r _
  have hchange : Grows nowhere (· = .feature r) s₂ s₃ := .modify_hole (fun _ => rfl) rfl
  have hlisted₃ : Listed r (.scenario ref) (s.get r).totalScenarios s s₃ :=
    .of_grows h (hretag hretags) (c := .scenario ref) (scenarioPlaced_retags hplaced₁ hretags)
      (fun _ => rfl) rfl
  refine .bind_of (steps_built_scenario hlisted₃.placed site node)
    (fun _ h₄ => (hlisted₃.grow h hnew h₄.1 h₄.2).built h) ?_
  rintro _ s₄ ⟨hsteps, hplaced₄⟩ ⟨-, hadmits₄⟩
  have hlisted₄ := hlisted₃.grow h hnew hsteps hplaced₄
  -- the scenario is counted
  rw [ensures_bind_change]
  set s₅ := s₄.modify r _
  have hcount : Grows nowhere (· = .feature r) s₄ s₅ := .modify_hole (fun _ => rfl) rfl
  have hlisted₅ : Listed r (.scenario ref) ((s.get r).totalScenarios + 1) s s₅ :=
    hlisted₄.recount h (fun _ => rfl) (by rw [hlisted₄.feature])
  rw [ensures_bind_read, ensures_bind_read]
  refine countScenarios_built (hlisted₅.built h) 1 _ _ (hlisted₅.counted h rfl nofun)
    (hlisted₅.joined ?_)
  rw [containerParts_grows hlisted₄.placed hcount (sparesParts_feature r)]
  have hadmits₃ : Admits (· ∈ s₄.scenarioParts ref) s s₃ :=
    ((Admits.register s (List.mem_cons_self ..)).trans (.nowhere hretags.grows)).trans
      (.nowhere hchange)
  exact (hadmits₃.trans hadmits₄).trans (.nowhere hcount)

/-! ## Building outlines -/

section

variable {feature partId : String} {x : Ref Outline}

theorem outlinePlaced_self (h : s.OutlinePlaced feature x partId) :
    s.OutlinePlaced (s.get x).featureId x (s.get x).id := by
  have hid : (s.get x).id = partId := h.placed.idOf
  rw [hid, h.featureId]
  exact h

/-- An outline that has come in and has neither tables nor rows yet. -/
structure OutlineStarted (s : Store) (feature : String) (x : Ref Outline) (partId : String) :
    Prop where
  placed : s.Placed (.outline x) partId
  featureId : (s.get x).featureId = feature
  steps : s.StepsPlaced partId (s.get x).steps
  examples : (s.get x).examples = []
  scenarios : (s.get x).scenarios = []

theorem outlineStarted_register {site : Site} {node : Value} {o : Outline}
    (ho : OutlineComesIn site s r node o) :
    OutlineStarted (s.register o).1 (s.get r).id (s.register o).2 (nextPart s r) := by
  have hget := get_register_self s o
  refine ⟨ho.id ▸ placed_register s o, by rw [hget, ho.featureId], ?_, by rw [hget, ho.examples],
    by rw [hget, ho.scenarios]⟩
  rw [hget, ho.steps]
  exact .nil

namespace OutlineStarted

theorem outlinePlaced (h : OutlineStarted s feature x partId) :
    s.OutlinePlaced feature x partId := by
  refine ⟨h.placed, h.featureId, h.steps, ?_, ?_⟩
  · rw [h.examples]
    exact .nil
  · rw [h.scenarios]
    exact .nil

theorem exploded (h : OutlineStarted s feature x partId) : Exploded s x := by
  unfold Exploded expectedScenarios
  rw [h.examples, h.scenarios]
  rfl

theorem retags (h : OutlineStarted s feature x partId) (hretags : Retags (.outline x) s s') :
    OutlineStarted s' feature x partId := by
  have hframe : { s'.get x with tags := [] } = { s.get x with tags := [] } :=
    Content.outline.inj hretags.untagged
  have hsteps : (s'.get x).steps = (s.get x).steps := (congrArg Outline.steps hframe :)
  constructor
  case placed => exact h.placed.grows hretags.grows fun _ => id
  case featureId =>
    rw [← h.featureId]
    exact (congrArg Outline.featureId hframe :)
  case steps =>
    rw [hsteps]
    exact h.steps.grows hretags.grows (fun _ _ _ _ _ => id) nofun
  case examples =>
    rw [← h.examples]
    exact (congrArg Outline.examples hframe :)
  case scenarios =>
    rw [← h.scenarios]
    exact (congrArg Outline.scenarios hframe :)

theorem stepsBuilt (h : OutlineStarted s feature x partId)
    (hbuilt : StepsBuilt (.outline x) s s') : OutlineStarted s' feature x partId := by
  have hframe : { s'.get x with steps := [] } = { s.get x with steps := [] } :=
    Content.outline.inj hbuilt.stepless
  have hsteps := hbuilt.placed
  rw [show s.idOf (Container.entry (.outline x)) = partId from h.placed.idOf] at hsteps
  constructor
  case placed => exact placed_stepsBuilt (c := .outline x) h.placed hbuilt
  case featureId =>
    rw [← h.featureId]
    exact (congrArg Outline.featureId hframe :)
  case steps => exact hsteps
  case examples =>
    rw [← h.examples]
    exact (congrArg Outline.examples hframe :)
  case scenarios =>
    rw [← h.scenarios]
    exact (congrArg Outline.scenarios hframe :)

/-- Nothing belongs to it yet but its steps. -/
theorem parts (h : OutlineStarted s feature x partId) :
    s.outlineParts x = .outline x :: (s.get x).steps.map .step := by
  rw [outlineParts, h.examples, h.scenarios]
  simp

end OutlineStarted

/-- The steps of an outline that has come in. -/
theorem steps_built_outline (h : OutlineStarted s feature x partId) (site : Site) (node : Value) :
    Ensures (steps site node (.outline x)) s
      (fun s' => Grows (PartsBelow partId) (· = .outline x) s s' ∧
        OutlineStarted s' feature x partId) fun _ s' =>
      Fills (·.outlineParts x) s s' := by
  have hid : s.idOf (Container.outline x).entry = partId := h.placed.idOf
  refine (steps_built (c := .outline x) h.placed.has ?_ site node).weaken ?_ ?_
  · rw [hid]
    exact h.steps
  · intro s' hbuilt
    have hgrows := hbuilt.grows
    rw [hid] at hgrows
    exact ⟨hgrows, h.stepsBuilt hbuilt⟩
  · rintro _ s' hbuilt ⟨refs, -, hsteps, hadmits⟩
    have hsteps : (s'.get x).steps = (s.get x).steps ++ refs := hsteps
    have hparts : s'.outlineParts x =
        .outline x :: ((s.get x).steps.map .step ++ refs.map .step) := by
      rw [(h.stepsBuilt hbuilt).parts, hsteps, List.map_append]
    constructor
    · rw [h.parts, hparts]
      exact List.cons_subset_cons _ (List.subset_append_left ..)
    · refine hadmits.mono ?_
      rintro _ ⟨step, hstep, rfl⟩
      rw [hparts]
      exact List.mem_cons_of_mem _ (List.mem_append_right _ (List.mem_map_of_mem hstep))

/-- The tables of an outline, one after the other. -/
theorem tables_built (h : s.OutlinePlaced feature x partId) (site : Site) (nodes : List Value) :
    Ensures (nodes.forM (Build.examples site x)) s
      (fun s' => Grows (PartsBelow partId) (· = .outline x) s s' ∧
        s'.OutlinePlaced feature x partId) fun _ s' =>
      (Exploded s x → Exploded s' x) ∧ Fills (·.outlineParts x) s s' := by
  have hid : (s.get x).id = partId := h.placed.idOf
  refine (Ensures.forM (I := OutlineBuilt x s)
    (fun _ s' => (Exploded s x → Exploded s' x) ∧ Fills (·.outlineParts x) s s')
    (.refl (outlinePlaced_self h)) ⟨id, .refl s⟩ ?_).weaken ?_ fun _ _ _ => id
  · intro _ node _ s' _ hbuilt ⟨hexploded, hfills⟩
    exact (examples_built hbuilt.placed_self site node).weaken (fun _ h' => hbuilt.trans h')
      fun _ _ _ hnext => ⟨fun h => hnext.1 (hexploded h), hfills.trans hnext.2⟩
  · rintro s' ⟨hgrows, hplaced, -⟩
    rw [hid] at hgrows hplaced
    rw [h.featureId] at hplaced
    exact ⟨hgrows, hplaced⟩

end

/-- **An outline is registered with its steps, tables and rows under the next number.** -/
theorem outline_built (h : s.FeaturePlaced r (s.get r).id) (site : Site) (node : Value) :
    Ensures (outline site r node) s (FeatureBuilt r s) fun _ s' =>
      (Counted s r → Counted s' r) ∧ ∃ c, Joined r c s s' := by
  refine ensures_outline (.refl h) fun x hx => ?_
  unfold fillOutline
  set s₁ := (s.register x).1
  set ref := (s.register x).2
  have hgrows₁ : Grows (PartsUnder (nextPart s r)) untouched s s₁ :=
    .register_part s hx.id fun _ => trivial
  have hstarted₁ := outlineStarted_register hx
  have hadd : ∀ {s' s'' region}, Grows (PartsUnder (nextPart s r)) untouched s s' →
      Grows region (· = .outline ref) s' s'' →
      (∀ id e, region id e → PartsUnder (nextPart s r) id e) →
      Grows (PartsUnder (nextPart s r)) untouched s s'' := fun h' =>
    h'.trans_fresh (not_has_register_self s x)
  refine ensures_bind_check (featureBuilt_of_grows h hgrows₁) fun tags _ => ?_
  refine .bind_of (declareAll_retags hstarted₁.placed.has nofun nofun site.file tags)
    (fun _ h₂ => featureBuilt_of_grows h (hadd hgrows₁ h₂.grows fun _ _ => False.elim))
    fun _ s₂ hretags _ => ?_
  have hgrows₂ := hadd hgrows₁ hretags.grows fun _ _ => False.elim
  have hstarted₂ := hstarted₁.retags hretags
  refine .bind_of (steps_built_outline hstarted₂ site node)
    (fun _ h₃ => featureBuilt_of_grows h (hadd hgrows₂ h₃.1 fun _ _ he => he.1)) ?_
  rintro _ s₃ ⟨hsteps, hstarted₃⟩ hfills₃
  have hgrows₃ := hadd hgrows₂ hsteps fun _ _ he => he.1
  refine ensures_bind_check (featureBuilt_of_grows h hgrows₃) fun nodes _ => ?_
  refine .bind_of (tables_built hstarted₃.outlinePlaced site nodes)
    (fun _ h₄ => featureBuilt_of_grows h (hadd hgrows₃ h₄.1 fun _ _ he => he.1)) ?_
  rintro _ s₄ ⟨htables, hplaced₄⟩ ⟨hexploded₄, hfills₄⟩
  have hgrows₄ := hadd hgrows₃ htables fun _ _ he => he.1
  -- the outline joins the feature with all that it holds
  rw [ensures_bind_read, ensures_bind_change]
  set s₅ := s₄.modify r _
  have hchange : Grows nowhere (· = .feature r) s₄ s₅ := .modify_hole (fun _ => rfl) rfl
  have hlisted : Listed r (.outline ref)
      ((s.get r).totalScenarios + (s₄.get ref).scenarios.length) s s₅ :=
    .of_grows h hgrows₄ (c := .outline ref) hplaced₄ (fun _ => rfl) rfl
  have hsame : s₅.get ref = s₄.get ref := hchange.get_outline hplaced₄.placed.has nofun
  have hexploded₅ : Exploded s₅ ref := by
    refine exploded_of_same (hexploded₄ hstarted₃.exploded) hsame fun e he => ?_
    obtain ⟨i, hi, -⟩ := hplaced₄.examples.exists_of_mem he
    exact hchange.get_examples hi.has nofun
  rw [ensures_bind_read, ensures_bind_read]
  refine countScenarios_built (hlisted.built h) _ _ _ (hlisted.counted h ?_ ?_) (hlisted.joined ?_)
  · exact congrArg (fun o : Outline => (s.get r).totalScenarios + o.scenarios.length) hsame.symm
  · rintro _ ⟨⟩
    exact hexploded₅
  · rw [containerParts_grows (c := .outline ref) hplaced₄ hchange (sparesParts_feature r)]
    have hadmits₂ : Admits (· ∈ s₂.outlineParts ref) s s₂ :=
      (Admits.register s (List.mem_cons_self ..)).trans (.nowhere hretags.grows)
    have hfills := hfills₃.trans hfills₄
    exact ((hadmits₂.mono fun _ he => hfills.kept he).trans hfills.admits).trans (.nowhere hchange)

end StepTrace.Build
