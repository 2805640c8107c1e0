import StepTrace.Proofs.Build.Splicing
import StepTrace.Proofs.Outline.Rows

/-!
# The children of a feature in document order

A feature that has been built holds one container for each scenario node of its document that is
kept, in the order in which the nodes stand in the document with its rules replaced by what they
hold: the `n`-th under the number `n`, as an outline if the node has examples and as a plain scenario
if it has none, with the head and the steps of the node (`Store.ContainerOf`).  Its background is
that of the last background node (`feature_in_order`).

A plain scenario joins its feature before its steps are built, an outline after its tables; either
way a builder of children leaves the feature with one more container for each node
(`Store.ChildrenOf`), and what comes later changes nothing that a container holds.
-/

namespace StepTrace

/-! ## Nodes of one kind -/

namespace Value

variable {child : Value}

/-- The parts under a key of those children that have one. -/
def partsOf (key : String) (children : List Value) : List Value :=
  (children.map fun child => child.partOf key).filter isPresent

theorem partsOf_cons (key : String) (child : Value) (children : List Value) :
    partsOf key (child :: children) =
      (if (child.partOf key).isPresent then [child.partOf key] else []) ++ partsOf key children := by
  rw [partsOf, List.map_cons, List.filter_cons]
  split <;> rfl

/-- What a rule holds at the level of the feature, child by child. -/
theorem ruleParts_eq {items : List Value} (h : ∀ item ∈ items, item.isSingle = true) :
    items.flatMap ruleBackgrounds = partsOf "background" (items.filter isLeaf) ∧
      items.flatMap ruleScenarios = partsOf "scenario" (items.filter isLeaf) := by
  induction items with
  | nil => exact ⟨rfl, rfl⟩
  | cons item items ih =>
      obtain ⟨hbackgrounds, hscenarios⟩ := ih fun item hitem => h item (List.mem_cons_of_mem _ hitem)
      have hsingle := h item (List.mem_cons_self ..)
      rw [List.flatMap_cons, List.flatMap_cons, hbackgrounds, hscenarios, List.filter_cons]
      simp only [isSingle, beq_iff_eq] at hsingle
      rcases (item.partOf "background").isPresent.eq_false_or_eq_true with hb | hb <;>
        rcases (item.partOf "scenario").isPresent.eq_false_or_eq_true with hs | hs <;>
        simp [ruleBackgrounds, ruleScenarios, isLeaf, hb, hs, partsOf_cons] at hsingle ⊢

/-- **What a child of one kind holds at the level of its feature stands in its place.** -/
theorem childParts_eq (h : child.childSingle = true) :
    child.childBackgrounds = partsOf "background" child.spliced ∧
      child.childScenarios = partsOf "scenario" child.spliced := by
  simp only [childSingle, Bool.and_eq_true] at h
  obtain ⟨hsingle, hitems⟩ := h
  have hrule := rule_isPresent hsingle
  simp only [isSingle, beq_iff_eq] at hsingle
  simp only [isLeaf] at hrule
  cases hr : (child.partOf "rule").isPresent with
  | false =>
      simp only [childBackgrounds, childScenarios, spliced, hr]
      cases hb : (child.partOf "background").isPresent <;>
        cases hs : (child.partOf "scenario").isPresent <;>
        simp [hb, hs, hr, partsOf] at hsingle ⊢
  | true =>
      simp only [hr, Bool.true_eq, Bool.not_eq_true', Bool.or_eq_false_iff] at hrule
      simp only [childBackgrounds, childScenarios, spliced, hr, hrule.1, hrule.2,
        Bool.false_eq_true, if_false, if_true]
      cases hok : (child.partOf "rule").elementsOf "children" with
      | ok items =>
          rw [elementsPass, itemsOf_eq hok] at hitems
          rw [itemsOf_eq hok]
          exact ruleParts_eq (List.all_eq_true.mp hitems)
      | error fault => simp [itemsOf, hok, partsOf, hrule.1, hrule.2, Except.toOption]

/-- The backgrounds and scenarios of a document are those of the document with its rules replaced. -/
theorem parts_splice {content : Value} (h : content.documentSingle = true) :
    let children := (content.splice.partOf "feature").itemsOf "children"
    content.backgrounds = partsOf "background" children ∧ ∀ names, content.keptScenarios names =
      (partsOf "scenario" children).filter fun node => !node.isExcluded names := by
  have hparts {items : List Value} (hitems : ∀ item ∈ items, item.childSingle = true) :
      items.flatMap childBackgrounds = partsOf "background" (items.flatMap spliced) ∧
        items.flatMap childScenarios = partsOf "scenario" (items.flatMap spliced) := by
    induction items with
    | nil => exact ⟨rfl, rfl⟩
    | cons item items ih =>
        obtain ⟨hbackgrounds, hscenarios⟩ :=
          ih fun item hitem => hitems item (List.mem_cons_of_mem _ hitem)
        obtain ⟨hb, hs⟩ := childParts_eq (hitems item (List.mem_cons_self ..))
        simp only [List.flatMap_cons, hbackgrounds, hscenarios, hb, hs, partsOf, List.map_append,
          List.filter_append, and_self]
  obtain ⟨hbackgrounds, hscenarios⟩ := hparts (List.all_eq_true.mp h)
  rw [children_splice]
  exact ⟨hbackgrounds, fun names => congrArg (List.filter _) hscenarios⟩

end Value

namespace Store

variable {s s' s'' : Store} {file id featureId : String} {names : List String} {node : Value}
variable {region : String → Entry → Prop} {hole : Entry → Prop}

/-! ## What is made of a node -/

/-- The outline is that of the node: its templates, its kept tables, and a scenario for each row. -/
def Unfolds (s : Store) (file : String) (names : List String) (node : Value) (o : Ref Outline) :
    Prop :=
  s.Unfolded file (node.itemsOf "steps") (node.keptTables names) (s.rowsOf (s.get o)) o

theorem Unfolds.grows {o : Ref Outline} (h : s.Unfolds file names node o)
    (hgrows : Grows region hole s s') (hhole : SparesParts hole) : s'.Unfolds file names node o := by
  have hrows : s'.rowsOf (s'.get o) = s.rowsOf (s.get o) := by
    rw [hgrows.get_outline h.has (hhole _ trivial), rowsOf, rowsOf]
    refine List.flatMap_congr fun e he => ?_
    obtain ⟨table, -, htable⟩ := exists_left_of_forall₂ h.tables he
    rw [hgrows.get_examples htable.has (hhole _ trivial)]
  unfold Unfolds
  rw [hrows]
  exact Unfolded.grows h hgrows hhole

/-- The background or plain scenario of a node, with one step for each step of the node. -/
structure ScenarioOf (s : Store) (file id featureId : String) (kind : ScenarioKind) (node : Value)
    (r : Ref Scenario) : Prop where
  has : s.Has (.scenario r)
  id : (s.get r).id = id
  kind : (s.get r).kind = kind
  featureId : (s.get r).featureId = featureId
  head : HeadOf file node (s.get r).keyword (s.get r).title (s.get r).location
    (s.get r).description
  steps : List.Forall₂ (s.TemplateOf file (s.get r).id) ((node.itemsOf "steps").zipIdx 1)
    (s.get r).steps

/-- A scenario that has only got steps and tags since it came in for the node. -/
theorem ScenarioOf.of_bare {site : Site} {label : String} {kind : ScenarioKind} {f : Ref Feature}
    {x : Scenario} {r : Ref Scenario} (hx : Build.ScenarioComesIn site s' f label kind node x)
    (hhas : s.Has (.scenario r))
    (hbare : { s.get r with steps := [], tags := [] } = { x with steps := [], tags := [] })
    (hsteps : List.Forall₂ (s.TemplateOf site.file (s.get r).id) ((node.itemsOf "steps").zipIdx 1)
      (s.get r).steps) :
    s.ScenarioOf site.file (part (s'.get f).id label) (s'.get f).id kind node r := by
  have hkeyword : (s.get r).keyword = x.keyword := (congrArg Scenario.keyword hbare :)
  have htitle : (s.get r).title = x.title := (congrArg Scenario.title hbare :)
  have hlocation : (s.get r).location = x.location := (congrArg Scenario.location hbare :)
  have hdescription : (s.get r).description = x.description :=
    (congrArg Scenario.description hbare :)
  refine ⟨hhas, (congrArg Scenario.id hbare :).trans hx.id,
    (congrArg Scenario.kind hbare :).trans hx.kind,
    (congrArg Scenario.featureId hbare :).trans hx.featureId, ?_, hsteps⟩
  rw [hkeyword, htitle, hlocation, hdescription]
  exact hx.head

/-- The outline of a node, unfolded. -/
structure OutlineOf (s : Store) (file id featureId : String) (names : List String) (node : Value)
    (o : Ref Outline) : Prop where
  id : (s.get o).id = id
  featureId : (s.get o).featureId = featureId
  head : HeadOf file node (s.get o).keyword (s.get o).title (s.get o).location
    (s.get o).description
  unfolds : s.Unfolds file names node o

/-- An outline that has only got steps, tags, tables and scenarios since it came in for the node. -/
theorem OutlineOf.of_bare {site : Site} {f : Ref Feature} {x : Outline} {o : Ref Outline}
    (hx : Build.OutlineComesIn site s' f node x)
    (hbare : { (s.get o).frame with steps := [], tags := [] } =
      { x.frame with steps := [], tags := [] })
    (hunfolds : s.Unfolds site.file names node o) :
    s.OutlineOf site.file (Build.nextPart s' f) (s'.get f).id names node o := by
  have hkeyword : (s.get o).keyword = x.keyword := (congrArg Outline.keyword hbare :)
  have htitle : (s.get o).title = x.title := (congrArg Outline.title hbare :)
  have hlocation : (s.get o).location = x.location := (congrArg Outline.location hbare :)
  have hdescription : (s.get o).description = x.description :=
    (congrArg Outline.description hbare :)
  refine ⟨(congrArg Outline.id hbare :).trans hx.id,
    (congrArg Outline.featureId hbare :).trans hx.featureId, ?_, hunfolds⟩
  rw [hkeyword, htitle, hlocation, hdescription]
  exact hx.head

/-- What a feature holds for a scenario node at a position: an outline if the node has examples, a
plain scenario if it has none. -/
def ContainerOf (s : Store) (file featureId : String) (names : List String) (node : Value × Nat) :
    Container → Prop
  | .scenario r => (node.1.partOf "examples").isPresent = false ∧
      s.ScenarioOf file (featureId ++ ":scenario_" ++ toString node.2) featureId .scenario node.1 r
  | .outline o => (node.1.partOf "examples").isPresent = true ∧
      s.OutlineOf file (featureId ++ ":scenario_" ++ toString node.2) featureId names node.1 o

/-- The background is that of the last of the nodes; if there are none it is the given one. -/
def BackgroundOf (s : Store) (file featureId : String) (nodes : List Value)
    (earlier found : Option (Ref Scenario)) : Prop :=
  match nodes.getLast? with
  | none => found = earlier
  | some node => ∃ b, found = some b ∧
      s.ScenarioOf file (featureId ++ ":background") featureId .background node b

theorem ScenarioOf.grows {kind : ScenarioKind} {r : Ref Scenario}
    (h : s.ScenarioOf file id featureId kind node r) (hgrows : Grows region hole s s')
    (hhole : SparesParts hole) : s'.ScenarioOf file id featureId kind node r := by
  have hsame := hgrows.get_scenario h.has (hhole _ trivial)
  refine ⟨hgrows.has h.has, ?_, ?_, ?_, ?_, ?_⟩ <;> rw [hsame]
  · exact h.id
  · exact h.kind
  · exact h.featureId
  · exact h.head
  · exact h.steps.imp fun _ _ hx => hx.grows hgrows (hhole _ trivial)

theorem OutlineOf.grows {o : Ref Outline} (h : s.OutlineOf file id featureId names node o)
    (hgrows : Grows region hole s s') (hhole : SparesParts hole) :
    s'.OutlineOf file id featureId names node o := by
  have hsame := hgrows.get_outline (Unfolded.has h.unfolds) (hhole _ trivial)
  refine ⟨?_, ?_, ?_, h.unfolds.grows hgrows hhole⟩ <;> rw [hsame]
  · exact h.id
  · exact h.featureId
  · exact h.head

/-- What changes elsewhere leaves a container and all that it holds as they are. -/
theorem ContainerOf.grows {node : Value × Nat} {c : Container}
    (h : s.ContainerOf file featureId names node c) (hgrows : Grows region hole s s')
    (hhole : SparesParts hole) : s'.ContainerOf file featureId names node c := by
  cases c with
  | scenario r => exact ⟨h.1, h.2.grows hgrows hhole⟩
  | outline o => exact ⟨h.1, h.2.grows hgrows hhole⟩

theorem BackgroundOf.grows {nodes : List Value} {earlier found : Option (Ref Scenario)}
    (h : s.BackgroundOf file featureId nodes earlier found) (hgrows : Grows region hole s s')
    (hhole : SparesParts hole) : s'.BackgroundOf file featureId nodes earlier found := by
  unfold BackgroundOf at h ⊢
  split at h
  · exact h
  · obtain ⟨b, hb, hnode⟩ := h
    exact ⟨b, hb, hnode.grows hgrows hhole⟩

/-! ## Children that have come in -/

/-- Of what was there only a feature has changed: containers of the scenario nodes have joined it,
in their order, and its background is that of the last background node. -/
structure ChildrenOf (file : String) (names : List String) (r : Ref Feature)
    (backgrounds scenarios : List Value) (s s' : Store) : Prop where
  grows : Grows anywhere (· = .feature r) s s'
  background : s'.BackgroundOf file (s.get r).id backgrounds (s.get r).background
    (s'.get r).background
  scenarios : ∃ cs, (s'.get r).scenarios = (s.get r).scenarios ++ cs ∧
    List.Forall₂ (s'.ContainerOf file (s.get r).id names)
      (scenarios.zipIdx ((s.get r).scenarios.length + 1)) cs

namespace ChildrenOf

variable {r : Ref Feature} {backgrounds backgrounds' scenarios scenarios' : List Value}

theorem refl (r : Ref Feature) (s : Store) : ChildrenOf file names r [] [] s s :=
  ⟨.refl s, rfl, [], (List.append_nil _).symm, .nil⟩

theorem trans (hr : s.Has (.feature r)) (h : ChildrenOf file names r backgrounds scenarios s s')
    (h' : ChildrenOf file names r backgrounds' scenarios' s' s'') :
    ChildrenOf file names r (backgrounds ++ backgrounds') (scenarios ++ scenarios') s s'' := by
  have hid : (s'.get r).id = (s.get r).id := h.grows.idOf hr
  have hspares := sparesParts_feature r
  obtain ⟨cs, hcs, hnodes⟩ := h.scenarios
  obtain ⟨cs', hcs', hnodes'⟩ := h'.scenarios
  refine ⟨h.grows.trans_same h'.grows, ?_, cs ++ cs', ?_, ?_⟩
  · have hlater := h'.background
    rw [hid] at hlater
    unfold BackgroundOf at hlater ⊢
    rw [List.getLast?_append]
    cases hlast : backgrounds'.getLast? with
    | some node =>
        rw [hlast] at hlater
        exact hlater
    | none =>
        rw [hlast] at hlater
        rw [Option.none_or, hlater]
        exact h.background.grows h'.grows hspares
  · rw [hcs', hcs, List.append_assoc]
  · rw [hcs, List.length_append, hid] at hnodes'
    have hlength : cs.length = scenarios.length := by
      rw [← hnodes.length_eq, List.length_zipIdx]
    rw [List.zipIdx_append]
    refine List.rel_append (hnodes.imp fun _ _ hc => hc.grows h'.grows hspares) ?_
    rwa [hlength, Nat.add_right_comm] at hnodes'

/-- One container has joined the feature, and then only tags have been counted. -/
theorem counted {c : Container} {total : Nat} (hgrows : Grows anywhere (· = .feature r) s s')
    (htags : Grows nowhere untouched s' s'') (hr : s.Has (.feature r))
    (hget : s'.get r = { s.get r with
      scenarios := (s.get r).scenarios ++ [c], totalScenarios := total })
    (hc : s'.ContainerOf file (s.get r).id names (node, (s.get r).scenarios.length + 1) c) :
    ChildrenOf file names r [] [node] s s'' := by
  have hsame : s''.get r = s'.get r := htags.get_feature (hgrows.has hr) id
  refine ⟨hgrows.trans_same htags.set_aside, ?_, [c], by rw [hsame, hget], .cons ?_ .nil⟩
  · rw [hsame, hget]
    rfl
  · exact hc.grows htags fun _ _ => id

end ChildrenOf

end Store

namespace Build

open Store

variable {s s' : Store} {c : Container} {r : Ref Feature}

/-! ## Steps -/

theorem step_template (hc : s.Has c.entry) (site : Site) (node : Value) :
    Ensures (step site c node) s (fun _ => True) fun _ s' => Grows anywhere (· = c.entry) s s' ∧
      (s'.content c.entry).stepless = (s.content c.entry).stepless ∧
      ∃ x, containerSteps s' c = containerSteps s c ++ [x] ∧ s'.TemplateOf site.file
        (s.idOf c.entry) (node, (containerSteps s c).length + 1) x := by
  unfold step
  rw [ensures_bind_get, containerId_eq]
  refine ensures_bind_check trivial fun x hx => ?_
  rw [ensures_bind_register, addStep_eq]
  set s₁ := (s.register x).1
  set ref := (s.register x).2
  have hregister : Grows anywhere (· = c.entry) s s₁ := .register s fun _ => trivial
  have hpush : Grows nowhere (· = c.entry) s₁ (pushStep s₁ c ref) := pushStep_grows s₁ c ref
  have hstep : Entry.step ref ≠ c.entry := by cases c <;> exact nofun
  have hhas : s₁.Has (.step ref) := has_register_self s x
  have hsame : s₁.content c.entry = s.content c.entry := content_register_of_has x hc
  refine ensures_modify trivial ⟨hregister.trans_same hpush, ?_, ref, ?_, hpush.has hhas, ?_⟩
  · rw [stepless_pushStep (hregister.has hc), hsame]
  · rw [containerSteps_pushStep (hregister.has hc), containerSteps_of_content_eq hsame]
  · rw [hpush.get_step hhas hstep, get_register_self]
    exact hx

/-- **The steps of a node become the templates of a container that has none yet.** -/
theorem steps_templates (hc : s.Has c.entry) (hempty : containerSteps s c = []) (site : Site)
    (node : Value) :
    Ensures (steps site node c) s (fun _ => True) fun _ s' => Grows anywhere (· = c.entry) s s' ∧
      (s'.content c.entry).stepless = (s.content c.entry).stepless ∧
      List.Forall₂ (s'.TemplateOf site.file (s.idOf c.entry)) ((node.itemsOf "steps").zipIdx 1)
        (containerSteps s' c) := by
  unfold steps
  refine ensures_bind_check trivial fun nodes hnodes => ?_
  rw [Value.itemsOf_eq hnodes]
  refine .forM (I := fun _ => True) (fun done s' => Grows anywhere (· = c.entry) s s' ∧
    (s'.content c.entry).stepless = (s.content c.entry).stepless ∧
    List.Forall₂ (s'.TemplateOf site.file (s.idOf c.entry)) (done.zipIdx 1) (containerSteps s' c))
    trivial ⟨.refl s, rfl, ?_⟩ ?_
  · rw [hempty]
    exact .nil
  rintro done node _ s₁ - - ⟨hgrows, hstepless, htemplates⟩
  refine (step_template (hgrows.has hc) site node).weaken (fun _ => id) ?_
  rintro _ s₂ - ⟨hnext, hsame, x, hadded, hx⟩
  have hlength : (containerSteps s₁ c).length = done.length := by
    rw [← htemplates.length_eq, List.length_zipIdx]
  rw [hgrows.idOf hc, hlength] at hx
  refine ⟨hgrows.trans_same hnext, hsame.trans hstepless, ?_⟩
  rw [hadded, List.zipIdx_append, Nat.add_comm 1]
  refine forall₂_concat (htemplates.imp fun _ _ h => h.grows hnext ?_) hx
  cases c <;> exact nofun

/-! ## Children of a feature -/

/-- A background takes the place of an earlier one. -/
theorem background_inOrder (hr : s.Has (.feature r)) (names : List String) (site : Site)
    (node : Value) :
    Ensures (background site (some r) node) s (fun _ => True) fun _ s' =>
      ChildrenOf site.file names r [node] [] s s' := by
  refine ensures_background trivial fun x hx => ?_
  rw [ensures_bind_change]
  set s₁ := (s.register x).1
  set ref := (s.register x).2
  set s₂ := s₁.modify r _ with hs₂
  have hregister : Grows anywhere untouched s s₁ := .register s fun _ => trivial
  have hgrows₂ : Grows anywhere (· = .feature r) s s₂ := hregister.modify_last r fun _ => rfl
  have hchange : Grows nowhere (· = .feature r) s₁ s₂ := .modify_hole (fun _ => rfl) rfl
  have hhas₂ : s₂.Has (.scenario ref) := hchange.has (has_register_self s x)
  have hget₂ : s₂.get r = { s.get r with background := some ref } := by
    rw [hs₂, get_modify_self s₁ r _ (hregister.has hr), hregister.get_feature hr id]
  have hx₂ : s₂.get ref = x := by
    rw [hchange.get_scenario (has_register_self s x) nofun, get_register_self]
  have hempty : containerSteps s₂ (.scenario ref) = [] :=
    (congrArg Scenario.steps hx₂ :).trans hx.steps
  refine (steps_templates (c := .scenario ref) hhas₂ hempty site node).weaken (fun _ => id) ?_
  rintro _ s₃ - ⟨hsteps, hstepless, htemplates⟩
  have hget₃ : s₃.get r = { s.get r with background := some ref } := by
    rw [hsteps.get_feature (hgrows₂.has hr) nofun, hget₂]
  have hbare₃ : { s₃.get ref with steps := [], tags := [] } = { x with steps := [], tags := [] } := by
    rw [← hx₂]
    exact congrArg (fun y : Scenario => { y with tags := [] }) (Content.scenario.inj hstepless)
  refine ⟨hgrows₂.trans_new (not_has_register_self s x) hsteps, ?_, [], ?_, .nil⟩
  · refine ⟨ref, by rw [hget₃], ?_⟩
    rw [part_background]
    refine .of_bare hx (hsteps.has hhas₂) hbare₃ ?_
    rw [show (s₃.get ref).id = s₂.idOf (.scenario ref) from hsteps.idOf hhas₂]
    exact htemplates
  · rw [hget₃, List.append_nil]

/-- A plain scenario joins its feature before its steps are built. -/
theorem plainScenario_inOrder (hr : s.Has (.feature r)) (names : List String) (site : Site)
    {node : Value} (hexamples : (node.partOf "examples").isPresent = false) :
    Ensures (plainScenario site r node) s (fun _ => True) fun _ s' =>
      ChildrenOf site.file names r [] [node] s s' := by
  refine ensures_plainScenario trivial fun x hx => ?_
  unfold fillScenario
  set s₁ := (s.register x).1
  set ref := (s.register x).2
  have hnew : ¬ s.Has (.scenario ref) := not_has_register_self s x
  have hother : Entry.feature r ≠ .scenario ref := by rintro ⟨⟩
  have hregister : Grows anywhere untouched s s₁ := .register s fun _ => trivial
  have hhas₁ : s₁.Has (.scenario ref) := has_register_self s x
  refine ensures_bind_check trivial fun tags _ => ?_
  refine .bind_of (declareAll_retags hhas₁ nofun nofun site.file tags) (fun _ _ => trivial) ?_
  rintro _ s₂ hretags -
  have hgrows₂ : Grows anywhere untouched s s₂ := hregister.trans_new hnew hretags.grows
  have hbare₂ : { s₂.get ref with tags := [] } = { x with tags := [] } := by
    rw [Content.scenario.inj hretags.untagged, get_register_self]
  rw [ensures_bind_change]
  set s₃ := s₂.modify r _ with hs₃
  have hjoin : Grows nowhere (· = .feature r) s₂ s₃ := .modify_hole (fun _ => rfl) rfl
  have hgrows₃ : Grows anywhere (· = .feature r) s s₃ := hgrows₂.modify_last r fun _ => rfl
  have hget₃ : s₃.get r =
      { s.get r with scenarios := (s.get r).scenarios ++ [.scenario ref] } := by
    rw [hs₃, get_modify_self s₂ r _ (hgrows₂.has hr), hgrows₂.get_feature hr id]
  have hhas₃ : s₃.Has (.scenario ref) := hjoin.has (hretags.grows.has hhas₁)
  have hsame₃ : s₃.get ref = s₂.get ref :=
    hjoin.get_scenario (hretags.grows.has hhas₁) hother.symm
  have hempty₃ : containerSteps s₃ (.scenario ref) = [] := by
    rw [containerSteps, hsame₃]
    exact (congrArg Scenario.steps hbare₂ :).trans hx.steps
  refine .bind_of (steps_templates (c := .scenario ref) hhas₃ hempty₃ site node)
    (fun _ _ => trivial) ?_
  rintro _ s₄ - ⟨hsteps, hstepless, htemplates⟩
  have hbare₄ : { s₄.get ref with steps := [], tags := [] } = { x with steps := [], tags := [] } := by
    have hframe : { s₄.get ref with steps := [] } = { s₃.get ref with steps := [] } :=
      Content.scenario.inj hstepless
    rw [hsame₃] at hframe
    exact (congrArg (fun y : Scenario => { y with tags := [] }) hframe).trans
      (congrArg (fun y : Scenario => { y with steps := [] }) hbare₂)
  have hscenario₄ : s₄.ScenarioOf site.file (nextPart s r) (s.get r).id .scenario node ref := by
    refine .of_bare hx (hsteps.has hhas₃) hbare₄ ?_
    rw [show (s₄.get ref).id = s₃.idOf (.scenario ref) from hsteps.idOf hhas₃]
    exact htemplates
  have hgrows₄ : Grows anywhere (· = .feature r) s s₄ := hgrows₃.trans_new hnew hsteps
  have hget₄ : s₄.get r = s₃.get r := hsteps.get_feature (hgrows₃.has hr) hother
  -- from here on only the count and the tags change
  rw [ensures_bind_change]
  set s₅ := s₄.modify r _ with hs₅
  have hcount : Grows nowhere (· = .feature r) s₄ s₅ := .modify_hole (fun _ => rfl) rfl
  rw [ensures_bind_read, ensures_bind_read]
  refine (countScenarios_grows s₅ _ _ _ _).keep.weaken (fun _ _ => trivial) ?_
  rintro _ s₆ - ⟨htags, -⟩
  have hgrows₅ := hgrows₄.trans_same hcount
  have hget₅ : s₅.get r = { s.get r with
      scenarios := (s.get r).scenarios ++ [.scenario ref],
      totalScenarios := (s.get r).totalScenarios + 1 } := by
    rw [hs₅, get_modify_self s₄ r _ (hgrows₄.has hr), hget₄, hget₃]
  have hscenario₅ := hscenario₄.grows hcount (sparesParts_feature r)
  rw [nextPart, nextLabel, ← part_scenario] at hscenario₅
  exact .counted hgrows₅ htags hr hget₅ ⟨hexamples, hscenario₅⟩

/-- An outline joins its feature when all that it holds has been built. -/
theorem outline_inOrder (hr : s.Has (.feature r)) (site : Site) {node : Value}
    (hexamples : (node.partOf "examples").isPresent = true) :
    Ensures (outline site r node) s (fun _ => True) fun _ s' =>
      ChildrenOf site.file site.excluded r [] [node] s s' := by
  refine ensures_outline trivial fun x hx => ?_
  unfold fillOutline
  set s₁ := (s.register x).1
  set ref := (s.register x).2
  have hnew : ¬ s.Has (.outline ref) := not_has_register_self s x
  have hregister : Grows anywhere untouched s s₁ := .register s fun _ => trivial
  have hhas₁ : s₁.Has (.outline ref) := has_register_self s x
  refine ensures_bind_check trivial fun tags _ => ?_
  refine .bind_of (declareAll_retags hhas₁ nofun nofun site.file tags) (fun _ _ => trivial) ?_
  rintro _ s₂ hretags -
  have hgrows₂ : Grows anywhere untouched s s₂ := hregister.trans_new hnew hretags.grows
  have hhas₂ : s₂.Has (.outline ref) := hretags.grows.has hhas₁
  have hbare₂ : { s₂.get ref with tags := [] } = { x with tags := [] } := by
    rw [Content.outline.inj hretags.untagged, get_register_self]
  refine .bind_of (steps_templates (c := .outline ref) hhas₂
    ((congrArg Outline.steps hbare₂ :).trans hx.steps) site node) (fun _ _ => trivial) ?_
  rintro _ s₃ - ⟨hsteps, hstepless, htemplates⟩
  have hgrows₃ : Grows anywhere untouched s s₃ := hgrows₂.trans_new hnew hsteps
  have hbare₃ : { s₃.get ref with steps := [], tags := [] } = { x with steps := [], tags := [] } :=
    (congrArg (fun y : Outline => { y with tags := [] }) (Content.outline.inj hstepless)).trans
      (congrArg (fun y : Outline => { y with steps := [] }) hbare₂)
  have htables₃ : (s₃.get ref).examples = [] :=
    (congrArg Outline.examples hbare₃ :).trans hx.examples
  have hscenarios₃ : (s₃.get ref).scenarios = [] :=
    (congrArg Outline.scenarios hbare₃ :).trans hx.scenarios
  have hunfolded₃ :
      s₃.Unfolded site.file (node.itemsOf "steps") [] (s₃.rowsOf (s₃.get ref)) ref := by
    refine ⟨hsteps.has hhas₂, ?_, ?_, ?_⟩
    · rw [show (s₃.get ref).id = s₂.idOf (.outline ref) from hsteps.idOf hhas₂]
      exact htemplates
    · rw [htables₃]
      exact .nil
    · rw [rowsOf, htables₃, hscenarios₃]
      exact .nil
  refine ensures_bind_check trivial fun nodes hnodes => ?_
  refine .bind_of (tables_unfolded hunfolded₃ site nodes) (fun _ _ => trivial) ?_
  rintro _ s₄ - ⟨hlonger, hunfolded₄⟩
  have hgrows₄ : Grows anywhere untouched s s₄ := hgrows₃.trans_new hnew hlonger.grows
  have houtline₄ : s₄.OutlineOf site.file (nextPart s r) (s.get r).id site.excluded node ref := by
    refine .of_bare hx ?_ ?_
    · rw [hlonger.frame]
      exact congrArg Outline.frame hbare₃
    · unfold Unfolds
      rw [Value.keptTables, Value.itemsOf_eq hnodes]
      simpa using hunfolded₄
  -- the outline joins the feature with all that it holds
  rw [ensures_bind_read, ensures_bind_change]
  set s₅ := s₄.modify r _ with hs₅
  have hjoin : Grows nowhere (· = .feature r) s₄ s₅ := .modify_hole (fun _ => rfl) rfl
  rw [ensures_bind_read, ensures_bind_read]
  refine (countScenarios_grows s₅ _ _ _ _).keep.weaken (fun _ _ => trivial) ?_
  rintro _ s₆ - ⟨htags, -⟩
  have hgrows₅ : Grows anywhere (· = .feature r) s s₅ := hgrows₄.modify_last r fun _ => rfl
  have hget₅ : s₅.get r = { s.get r with
      scenarios := (s.get r).scenarios ++ [.outline ref],
      totalScenarios := (s.get r).totalScenarios + (s₄.get ref).scenarios.length } := by
    rw [hs₅, get_modify_self s₄ r _ (hgrows₄.has hr), hgrows₄.get_feature hr id]
  have houtline₅ := houtline₄.grows hjoin (sparesParts_feature r)
  rw [nextPart, nextLabel, ← part_scenario] at houtline₅
  exact .counted hgrows₅ htags hr hget₅ ⟨hexamples, houtline₅⟩

/-- What the children of a feature leave it with adds up. -/
theorem addsUp_inOrder (site : Site) (r : Ref Feature) :
    AddsUp site r (·.Has (.feature r)) (fun _ _ => True)
      (ChildrenOf site.file site.excluded r) where
  left _ := trivial
  left_trans _ _ := trivial
  nothing _ := .refl r _
  ready hr _ hdone := hdone.grows.has hr
  trans hr hdone hnext := hdone.trans hr hnext
  background hr node := background_inOrder hr _ site node
  outline hr _ hexamples := outline_inOrder hr site hexamples
  plainScenario hr _ hexamples := plainScenario_inOrder hr _ site hexamples

/-! ## Documents -/

/-- **A document that is built leaves its feature with one container for each scenario node that is
kept, in their order, and the background of the last background node.** -/
theorem document_inOrder (s : Store) (site : Site) (content : Value) :
    Ensures (document site content) s (fun _ => True) fun result s' => ∀ r, result = some r →
      (s'.get r).id = site.file ∧
        s'.BackgroundOf site.file site.file content.backgrounds none (s'.get r).background ∧
          List.Forall₂ (s'.ContainerOf site.file site.file site.excluded)
            ((content.keptScenarios site.excluded).zipIdx 1) (s'.get r).scenarios := by
  refine ensures_document trivial nofun fun node f hnode _ hf => ?_
  unfold fillFeature fillPlaced
  set s₁ := (s.register f).1
  set r := (s.register f).2
  have hhas₁ : s₁.Has (.feature r) := has_register_self s f
  refine .bind_of (place_ensures s₁ site r) (fun _ _ => trivial) ?_
  rintro _ s₂ hplace -
  have hhas₂ := hplace.has hhas₁
  refine ensures_bind_check trivial fun tags _ => ?_
  refine .bind_of (declareAll_retags hhas₂ nofun nofun site.file tags) (fun _ _ => trivial) ?_
  rintro _ s₃ hretags -
  have hhas₃ := hretags.grows.has hhas₂
  -- Placing and tagging change only the tags: the lists are still empty
  -- when the children come.
  have hbare₃ : { s₃.get r with tags := [] } = { f with tags := [] } := by
    rw [Content.feature.inj hretags.untagged, hplace.get_feature hhas₁ id, get_register_self]
  have hempty₃ : (s₃.get r).scenarios = [] := (congrArg Feature.scenarios hbare₃ :).trans hf.scenarios
  have hnone₃ : (s₃.get r).background = none :=
    (congrArg Feature.background hbare₃ :).trans hf.background
  have hid₃ : (s₃.get r).id = site.file := (congrArg Feature.id hbare₃ :).trans hf.id
  refine ensures_bind_check trivial fun nodes hnodes => ?_
  refine .bind ((addsUp_inOrder site r).children hhas₃ nodes) ?_
  rintro _ s₄ - hchildren
  have hhas₄ := hchildren.grows.has hhas₃
  have hid₄ : (s₄.get r).id = (s₃.get r).id := hchildren.grows.idOf hhas₃
  obtain ⟨cs, hcs, hcontainers⟩ := hchildren.scenarios
  have hbackground := hchildren.background
  rw [hid₃, hnone₃] at hbackground
  rw [hid₃, hempty₃, List.length_nil, Nat.zero_add] at hcontainers
  rw [hempty₃, List.nil_append] at hcs
  rw [ensures_bind_read]
  refine .bind_of (addTotals_ensures s₄ _ _) (fun _ _ => trivial) ?_
  rintro _ s₅ htotals -
  refine .pure trivial ?_
  rintro _ ⟨⟩
  rw [htotals.get_feature hhas₄ id]
  refine ⟨hid₄.trans hid₃, ?_, ?_⟩
  · rw [Value.backgrounds, Value.partOf_eq hnode, Value.itemsOf_eq hnodes]
    exact hbackground.grows htotals fun _ _ => id
  · rw [Value.keptScenarios, Value.partOf_eq hnode, Value.itemsOf_eq hnodes, hcs]
    exact hcontainers.imp fun _ _ hc => hc.grows htotals fun _ _ => id

theorem site_names (s : Store) (file : Path) (excluded : List String) (readMe : ReadMe) :
    Ensures (site file excluded readMe) s (fun _ => True) fun x _ =>
      x.file = file.toString ∧ x.excluded = excluded.map stripSigil := by
  unfold site
  refine .bind (I := fun _ => True) (Q := fun _ _ => True) ⟨trivial, fun _ _ => trivial⟩ ?_
  exact fun _ _ _ _ => .pure trivial ⟨rfl, rfl⟩

/-- **Scenarios follow document order, with rules in place.**  A document whose children are of one
kind each is built as the one with its rules replaced by the backgrounds and scenarios that they
hold.  Over the children of that document the feature has one container for each scenario node that
is not excluded, in their order, the `n`-th under the number `n` and an outline if and only if its
node has examples; and its background is that of the last background node. -/
theorem feature_in_order {s s' : Store} {r : Ref Feature} {file : Path} {content : Value}
    {excluded : List String} {readMe : ReadMe} (hsingle : content.documentSingle = true)
    (hrun : (feature file content excluded readMe).run s = (.ok (some r), s')) :
    let children := (content.splice.partOf "feature").itemsOf "children"
    let names := excluded.map stripSigil
    (feature file content.splice excluded readMe).run s = (.ok (some r), s') ∧
      (s'.get r).id = file.toString ∧
      List.Forall₂ (s'.ContainerOf file.toString (s'.get r).id names)
        (((Value.partsOf "scenario" children).filter fun node => !node.isExcluded names).zipIdx 1)
        (s'.get r).scenarios ∧
      s'.BackgroundOf file.toString (s'.get r).id (Value.partsOf "background" children) none
        (s'.get r).background := by
  intro children names
  obtain ⟨hbackgrounds, hscenarios⟩ := Value.parts_splice hsingle
  have hbuilt : Ensures (feature file content excluded readMe) s (fun _ => True) fun result s' =>
      ∀ r, result = some r → (s'.get r).id = file.toString ∧
        s'.BackgroundOf file.toString file.toString content.backgrounds none
          (s'.get r).background ∧
        List.Forall₂ (s'.ContainerOf file.toString file.toString names)
          ((content.keptScenarios names).zipIdx 1) (s'.get r).scenarios := by
    unfold feature
    refine .bind (site_names s file excluded readMe) ?_
    rintro x s₁ - ⟨hfile, hexcluded⟩
    rw [← hfile, show names = x.excluded from hexcluded.symm]
    exact document_inOrder s₁ x content
  have hresult := hbuilt.2
  rw [hrun] at hresult
  obtain ⟨hid, hbackground, hcontainers⟩ := hresult (some r) rfl r rfl
  rw [hid, ← hbackgrounds, ← hscenarios]
  exact ⟨by rw [← feature_splice hsingle, hrun], rfl, hcontainers, hbackground⟩

private def titled (kind title : String) (fields : List (String × Value)) : Value :=
  .ofFields [(kind, .ofFields (("name", .text title) :: fields))]

/-- A feature with a background and a scenario, a rule with a background, an excluded scenario, an
outline and a rule of its own, and another scenario. -/
private def ferry : Value :=
  .ofFields [("feature", .ofFields [("children", .list [
    titled "background" "A quay" [],
    titled "scenario" "Board" [],
    titled "rule" "Cars" [("children", .list [
      titled "background" "A ramp" [("steps", .list [
        .ofFields [("keyword", .text "Given "), ("text", .text "a car")]])],
      titled "scenario" "Tow" [("tags", .list [.ofFields [("name", .text "@wip")]])],
      titled "scenario" "Drive" [("examples", .list [
        .ofFields [("tableBody", .list [.ofFields []])]])],
      titled "rule" "Trucks" [("children", .list [titled "scenario" "Weigh" []])]])],
    titled "scenario" "Leave" []])])]

theorem eq_ok_of_toOption {α : Type} {result : Except Fault α × Store} {a : α}
    (h : result.1.toOption = some a) : result = (.ok a, result.2) := by
  obtain ⟨fault | _, s⟩ := result
  · cases h
  · cases h
    rfl

/-- The rule gives the background and the second of three containers, which is an outline. -/
theorem feature_in_order_ferry :
    let built := (feature (.ofString "ferry.feature") ferry ["@wip"] none).run {}
    let children := (ferry.splice.partOf "feature").itemsOf "children"
    let f : Feature := built.2.get ⟨0⟩
    ferry.documentSingle = true ∧ built.1.toOption = some (some ⟨0⟩) ∧ (
      (feature (.ofString "ferry.feature") ferry.splice ["@wip"] none).run {} =
        (.ok (some ⟨0⟩), built.2) ∧
      f.id = (Path.ofString "ferry.feature").toString ∧
      List.Forall₂
        (built.2.ContainerOf (Path.ofString "ferry.feature").toString f.id
          (["@wip"].map stripSigil))
        (((Value.partsOf "scenario" children).filter fun node =>
          !node.isExcluded (["@wip"].map stripSigil)).zipIdx 1) f.scenarios ∧
      built.2.BackgroundOf (Path.ofString "ferry.feature").toString f.id
        (Value.partsOf "background" children) none f.background) ∧
      f.scenarios = [.scenario ⟨1⟩, .outline ⟨0⟩, .scenario ⟨4⟩] ∧ f.background = some ⟨2⟩ := by
  intro built children f
  have hsingle : ferry.documentSingle = true := by decide +kernel
  have hresult : built.1.toOption = some (some ⟨0⟩) := by decide +kernel
  have hok : built = (.ok (some ⟨0⟩), built.2) := eq_ok_of_toOption hresult
  exact ⟨hsingle, hresult, feature_in_order hsingle hok, by decide +kernel, by decide +kernel⟩

end Build

end StepTrace
