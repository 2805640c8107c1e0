import StepTrace.Proofs.View.Settled
import StepTrace.View.Export

/-!
# The graph that an export shows

An export can be read as a graph: its objects are nodes, what stands in an object is contained in it,
and the identifiers under `tags`, `definition` and `transforms` are edges (`Export.strokesOf`).
Backwards, definitions, transforms and tags list what refers to them (`Export.listed`).

Read in this way the export of a coherent registry gives the strokes of its graph
(`strokesOf_ofStore`), so both have the same nodes and the same edges, and all identifiers of the
export are those of its objects (`Export.Agrees`, `Batch.build_export_agrees`).
-/

namespace StepTrace

open Store

/-! ## Reading fields -/

namespace Value

/-- The value under a key. -/
def valueAt (v : Value) (key : String) : Value :=
  (v.lookup? key).getD .null

/-- The text under a key. -/
def textAt? (v : Value) (key : String) : Option String :=
  (v.valueAt key).toText.toOption

/-- The items under a key. -/
def itemsAt (v : Value) (key : String) : List Value :=
  ((v.lookup? key).bind items?).getD []

/-- The texts under a key. -/
def textsAt (v : Value) (key : String) : List String :=
  (v.itemsAt key).filterMap fun item => item.toText.toOption

/-- The identifier of an object. -/
def idText (v : Value) : String :=
  (v.textAt? "id").getD ""

/-- Reading a field of an object that is written out. -/
theorem textsAt_eq {v : Value} {key : String} (ss : List String)
    (h : v.lookup? key = some (.list (ss.map .text))) : v.textsAt key = ss := by
  rw [textsAt, itemsAt, h]
  change (ss.map text).filterMap _ = ss
  rw [List.filterMap_map]
  exact List.filterMap_some

theorem itemsAt_eq {v : Value} {key : String} (items : List Value)
    (h : v.lookup? key = some (.list items)) : v.itemsAt key = items := by
  rw [itemsAt, h]
  rfl

theorem valueAt_eq {v field : Value} {key : String} (h : v.lookup? key = some field) :
    v.valueAt key = field := by
  rw [valueAt, h]
  rfl

theorem idText_eq {v : Value} {id : String} (h : v.lookup? "id" = some (.text id)) :
    v.idText = id := by
  rw [idText, textAt?, valueAt_eq h]
  rfl

end Value

namespace Export

/-! ## Reading objects -/

/-- An object as a node, with the edges from what holds it and to what it names. -/
def strokesOfObject (holder : Option String) (v : Value) (face : NodeFace) (named : List Edge) :
    List Stroke :=
  .node v.idText face ::
    ((holder.toList.map fun holder => (⟨holder, v.idText, .contains⟩ : Edge)) ++ named).map .edge

/-- The edges to the tags of an object. -/
def tagged (v : Value) : List Edge :=
  (v.textsAt "tags").map fun tag => ⟨v.idText, tag, .tagged⟩

def strokesOfStep (holder : String) (v : Value) : List Stroke :=
  strokesOfObject (some holder) v
    ⟨Kind.step.word, .text ((v.valueAt "keyword").display ++ (v.valueAt "text").display)⟩
    (((v.textAt? "definition").toList.map fun d => ⟨v.idText, d, .implementedBy⟩) ++
      (v.textsAt "transforms").map fun t => ⟨v.idText, t, .transformedBy⟩)

def strokesOfExamples (holder : String) (v : Value) : List Stroke :=
  strokesOfObject (some holder) v ⟨Kind.examples.word, v.valueAt "name"⟩ (tagged v)

/-- The node of a background, a scenario or an outline. -/
def strokesOfHead (holder : String) (v : Value) : List Stroke :=
  strokesOfObject (some holder) v ⟨(v.textAt? "kind").getD "", v.valueAt "title"⟩ (tagged v)

def strokesOfScenario (holder : String) (v : Value) : List Stroke :=
  strokesOfHead holder v ++ (v.itemsAt "steps").flatMap (strokesOfStep v.idText)

/-- A scenario or an outline; a scenario has no examples and no scenarios in it. -/
def strokesOfContainer (holder : String) (v : Value) : List Stroke :=
  strokesOfHead holder v ++ ((v.itemsAt "steps").flatMap (strokesOfStep v.idText) ++
    ((v.itemsAt "examples").flatMap (strokesOfExamples v.idText) ++
      (v.itemsAt "scenarios").flatMap (strokesOfScenario v.idText)))

def strokesOfFeature (v : Value) : List Stroke :=
  strokesOfObject none v ⟨Kind.feature.word, v.valueAt "title"⟩ (tagged v) ++
    ((v.valueAt "background").nonNull?.toList.flatMap (strokesOfScenario v.idText) ++
      (v.itemsAt "scenarios").flatMap (strokesOfContainer v.idText))

/-- A definition, a transform or a tag. -/
def strokesOfTarget (kind : Kind) (label : String) (v : Value) : List Stroke :=
  strokesOfObject none v ⟨kind.word, v.valueAt label⟩ []

/-- All of an export. -/
def strokesOf (v : Value) : List Stroke :=
  (v.itemsAt "step_definitions").flatMap (strokesOfTarget .definition "pattern") ++
    ((v.itemsAt "transforms").flatMap (strokesOfTarget .transform "pattern") ++
      ((v.itemsAt "tags").flatMap (strokesOfTarget .tag "name") ++
        (v.itemsAt "features").flatMap strokesOfFeature))

/-- The objects of an export, with what their nodes show. -/
def nodesOf (v : Value) : List (String × NodeFace) :=
  nodesNamed (strokesOf v)

/-- The edges that an export shows. -/
def edgesOf (v : Value) : List Edge :=
  edgesDrawn (strokesOf v)

/-- The edges that an object lists backwards. -/
def listedBy (key : String) (relation : Relation) (v : Value) : List Edge :=
  (v.textsAt key).map fun source => ⟨source, v.idText, relation⟩

/-- The edges that definitions, transforms and tags list backwards. -/
def listed (v : Value) : List Edge :=
  (v.itemsAt "step_definitions").flatMap (listedBy "steps" .implementedBy) ++
    ((v.itemsAt "transforms").flatMap (listedBy "steps" .transformedBy) ++
      (v.itemsAt "tags").flatMap (listedBy "owners" .tagged))

/-- The export shows the graph, and is closed: what refers to an object is listed by it, and
conversely, and there are no identifiers but those of objects. -/
structure Agrees (v : Value) (g : LinkGraph) : Prop where
  nodes : g.nodes.entries.Perm ((nodesOf v).map fun node => (node.1, some node.2))
  edges : g.edges.Perm (edgesOf v)
  distinct : ((nodesOf v).map (·.1)).Nodup
  ends : ∀ e ∈ edgesOf v ++ listed v,
    e.source ∈ (nodesOf v).map (·.1) ∧ e.target ∈ (nodesOf v).map (·.1)
  listed_iff : ∀ e, e ∈ listed v ↔ e ∈ edgesOf v ∧ e.relation ≠ .contains

/-! ## The objects of an export -/

section

variable {s : Store} {holder : String}

/-- An object that has the identifier and the face of a record, and names what it names. -/
theorem strokesOfObject_eq {e : Entry} {v : Value} {owner : Option String} {face : NodeFace}
    {named : List Edge} (hid : v.idText = s.idOf e) (hface : face = s.faceOf e)
    (howner : s.ownerOf? e = owner) (hnamed : named = s.referring e) :
    strokesOfObject owner v face named = s.strokes e := by
  subst hface howner hnamed
  rw [strokesOfObject, hid, strokes, owning]

/-- The tags of an object whose record has no links. -/
theorem tagged_eq {e : Entry} {v : Value} (hid : v.idText = s.idOf e) (hlinks : s.linksOf e = [])
    (htags : v.lookup? "tags" = some (tagIds s (s.tagList e))) : tagged v = s.referring e := by
  rw [tagged, Value.textsAt_eq ((s.tagList e).map fun t => (s.get t).id) htags, hid, referring,
    references, hlinks, List.append_nil, List.map_map, List.map_map]
  rfl

theorem strokesOfStep_step {y : Ref Step} (h : (s.get y).scenarioId = holder) :
    strokesOfStep holder (step s y) = s.strokes (.step y) := by
  have hid : (step s y).idText = (s.get y).id := Value.idText_eq rfl
  have hdefinition : (step s y).textAt? "definition" =
      (s.get y).definition.map fun d => (s.get d).id := by
    have hvalue : (step s y).valueAt "definition" =
        ((s.get y).definition.map fun d => Value.text (s.get d).id).getD .null :=
      Value.valueAt_eq rfl
    rw [Value.textAt?, hvalue]
    cases (s.get y).definition <;> rfl
  refine strokesOfObject_eq hid rfl (congrArg some h) ?_
  rw [LinkGraph.referring_step, hid, hdefinition,
    Value.textsAt_eq ((s.get y).transforms.map fun t => (s.get t).id) rfl, List.map_map]
  cases (s.get y).definition <;> rfl

theorem strokesOfSteps {owner : String} {steps : List (Ref Step)}
    (h : ∀ y ∈ steps, (s.get y).scenarioId = owner) :
    (steps.map (step s)).flatMap (strokesOfStep owner) = (steps.map .step).flatMap s.strokes := by
  rw [List.flatMap_map, List.flatMap_map]
  exact List.flatMap_congr fun y hy => strokesOfStep_step (h y hy)

theorem strokesOfHead_scenario {feature : String} {outline : Option String} {x : Ref Scenario}
    (h : s.ScenarioNames feature outline x) (hholder : outline.getD feature = holder) :
    strokesOfHead holder (scenario s x) = s.strokes (.scenario x) := by
  have hid : (scenario s x).idText = (s.get x).id := Value.idText_eq rfl
  refine strokesOfObject_eq hid rfl ?_ (tagged_eq hid rfl rfl)
  rw [ownerOf?, h.outlineId, h.featureId, hholder]

theorem strokesOfScenario_scenario {feature : String} {outline : Option String} {x : Ref Scenario}
    (h : s.ScenarioNames feature outline x) (hholder : outline.getD feature = holder) :
    strokesOfScenario holder (scenario s x) = (s.scenarioParts x).flatMap s.strokes := by
  rw [strokesOfScenario, strokesOfHead_scenario h hholder,
    Value.itemsAt_eq ((s.get x).steps.map (step s)) rfl,
    show (scenario s x).idText = (s.get x).id from Value.idText_eq rfl, strokesOfSteps h.steps]
  rfl

/-- A scenario has no examples and no scenarios in it. -/
theorem strokesOfContainer_scenario {x : Ref Scenario} :
    strokesOfContainer holder (scenario s x) = strokesOfScenario holder (scenario s x) := by
  have hexamples : (scenario s x).itemsAt "examples" = [] := rfl
  have hscenarios : (scenario s x).itemsAt "scenarios" = [] := rfl
  rw [strokesOfContainer, hexamples, hscenarios, strokesOfScenario]
  exact congrArg _ (List.append_nil _)

theorem strokesOfExamples_examples {x : Ref Examples} (h : (s.get x).outlineId = holder) :
    strokesOfExamples holder (examples s x) = s.strokes (.examples x) := by
  have hid : (examples s x).idText = (s.get x).id := Value.idText_eq rfl
  exact strokesOfObject_eq hid rfl (congrArg some h) (tagged_eq hid rfl rfl)

theorem strokesOfContainer_outline {o : Ref Outline} (h : s.OutlineNames holder o) :
    strokesOfContainer holder (outline s o) = (s.outlineParts o).flatMap s.strokes := by
  have hid : (outline s o).idText = (s.get o).id := Value.idText_eq rfl
  have hhead : strokesOfHead holder (outline s o) = s.strokes (.outline o) :=
    strokesOfObject_eq hid rfl (congrArg some h.featureId) (tagged_eq hid rfl rfl)
  have hexamples : ((s.get o).examples.map (examples s)).flatMap (strokesOfExamples (s.get o).id) =
      ((s.get o).examples.map .examples).flatMap s.strokes := by
    rw [List.flatMap_map, List.flatMap_map]
    exact List.flatMap_congr fun x hx => strokesOfExamples_examples (h.examples x hx)
  have hrows : ((s.get o).scenarios.map (scenario s)).flatMap (strokesOfScenario (s.get o).id) =
      ((s.get o).scenarios.flatMap s.scenarioParts).flatMap s.strokes := by
    rw [List.flatMap_map, List.flatMap_assoc]
    exact List.flatMap_congr fun x hx => strokesOfScenario_scenario (h.rows x hx) rfl
  rw [strokesOfContainer, hhead, hid,
    Value.itemsAt_eq ((s.get o).steps.map (step s)) rfl,
    Value.itemsAt_eq ((s.get o).examples.map (examples s)) rfl,
    Value.itemsAt_eq ((s.get o).scenarios.map (scenario s)) rfl, strokesOfSteps h.steps,
    hexamples, hrows, outlineParts, List.flatMap_cons, List.flatMap_append, List.flatMap_append]

theorem strokesOfContainer_container {id : String} {c : Container}
    (h : s.ContainerPlaced holder c id) :
    strokesOfContainer holder (container s c) = (s.containerParts c).flatMap s.strokes := by
  cases c with
  | scenario x =>
      exact strokesOfContainer_scenario.trans
        (strokesOfScenario_scenario (ScenarioPlaced.names h) rfl)
  | outline o => exact strokesOfContainer_outline (OutlinePlaced.names h)

theorem strokesOfFeature_feature {r : Ref Feature} (h : s.FeaturePlaced r (s.get r).id) :
    strokesOfFeature (feature s r) = (s.featureParts r).flatMap s.strokes := by
  have hid : (feature s r).idText = (s.get r).id := Value.idText_eq rfl
  have hhead : strokesOfObject none (feature s r)
      ⟨Kind.feature.word, (feature s r).valueAt "title"⟩ (tagged (feature s r)) =
        s.strokes (.feature r) :=
    strokesOfObject_eq hid rfl rfl (tagged_eq hid rfl rfl)
  have hread : ((feature s r).valueAt "background").nonNull?.toList =
      (s.get r).background.toList.map (scenario s) := by
    have hvalue : (feature s r).valueAt "background" =
        ((s.get r).background.map (scenario s)).getD .null :=
      Value.valueAt_eq rfl
    rw [hvalue]
    cases (s.get r).background <;> rfl
  have hbackground : ((s.get r).background.toList.map (scenario s)).flatMap
      (strokesOfScenario (s.get r).id) =
        ((s.get r).background.toList.flatMap s.scenarioParts).flatMap s.strokes := by
    rw [List.flatMap_map, List.flatMap_assoc]
    exact List.flatMap_congr fun x hx =>
      strokesOfScenario_scenario (h.background x (Option.mem_toList.mp hx)).names rfl
  have hcontainers : ((s.get r).scenarios.map (container s)).flatMap
      (strokesOfContainer (s.get r).id) =
        ((s.get r).scenarios.flatMap s.containerParts).flatMap s.strokes := by
    rw [List.flatMap_map, List.flatMap_assoc]
    exact List.flatMap_congr fun c hc =>
      strokesOfContainer_container (h.containers.exists_of_mem hc).choose_spec
  rw [strokesOfFeature, hhead, hid, hread,
    Value.itemsAt_eq ((s.get r).scenarios.map (container s)) rfl, hbackground, hcontainers,
    featureParts, List.flatMap_cons, List.flatMap_append]

/-- **An export gives the strokes of the graph.** -/
theorem strokesOf_ofStore (h : ∀ r ∈ s.allFeatures, s.FeaturePlaced r (s.get r).id) :
    strokesOf (ofStore s) = s.depicted.flatMap s.strokes := by
  have hdefinition : ∀ d, strokesOfTarget .definition "pattern" (definition s d) =
      s.strokes (.definition d) := fun d => strokesOfObject_eq (Value.idText_eq rfl) rfl rfl rfl
  have htransform : ∀ t, strokesOfTarget .transform "pattern" (transform s t) =
      s.strokes (.transform t) := fun t => strokesOfObject_eq (Value.idText_eq rfl) rfl rfl rfl
  have htag : ∀ t, strokesOfTarget .tag "name" (tag s t) = s.strokes (.tag t) := fun t =>
    strokesOfObject_eq (Value.idText_eq rfl) rfl rfl rfl
  rw [strokesOf, Value.itemsAt_eq (s.allDefinitions.map (definition s)) rfl,
    Value.itemsAt_eq (s.allTransforms.map (transform s)) rfl,
    Value.itemsAt_eq (s.allTags.map (tag s)) rfl,
    Value.itemsAt_eq (s.allFeatures.map (feature s)) rfl]
  simp only [List.flatMap_map, hdefinition, htransform, htag, depicted, List.flatMap_append,
    List.flatMap_assoc]
  rw [List.flatMap_congr fun r hr => strokesOfFeature_feature (h r hr)]

/-- An export lists what records know to refer to them. -/
theorem listed_ofStore (s : Store) : listed (ofStore s) = s.depicted.flatMap s.referred := by
  have hparts : (s.allFeatures.flatMap s.featureParts).flatMap s.referred = [] := by
    refine List.flatMap_eq_nil_iff.mpr fun e he => ?_
    rw [referred, (referrers_eq_nil (kind_of_mem_parts he)).2]
    rfl
  have hby {α : Type} {key : String} (entry : α → Entry) {x : α} {v : Value}
      (hid : v.lookup? "id" = some (.text (s.idOf (entry x))))
      (hkey : v.lookup? key = some (texts (s.referrers (entry x)))) :
      listedBy key (entry x).relation v = s.referred (entry x) := by
    rw [listedBy, Value.textsAt_eq _ hkey, Value.idText_eq hid, referred]
  have hdefinition : ∀ d, listedBy "steps" .implementedBy (definition s d) =
      s.referred (.definition d) := fun d => hby .definition rfl rfl
  have htransform : ∀ t, listedBy "steps" .transformedBy (transform s t) =
      s.referred (.transform t) := fun t => hby .transform rfl rfl
  have htag : ∀ t, listedBy "owners" .tagged (tag s t) = s.referred (.tag t) := fun t =>
    hby .tag rfl rfl
  rw [listed, Value.itemsAt_eq (s.allDefinitions.map (definition s)) rfl,
    Value.itemsAt_eq (s.allTransforms.map (transform s)) rfl,
    Value.itemsAt_eq (s.allTags.map (tag s)) rfl, depicted, List.flatMap_append,
    List.flatMap_append, List.flatMap_append, hparts, List.append_nil]
  simp only [List.flatMap_map, hdefinition, htransform, htag]

/-- **The export of a coherent registry shows its graph, and is closed.** -/
theorem agrees_of_coherent (h : s.Coherent) : Agrees (ofStore s) (LinkGraph.ofStore s) := by
  have hstrokes := strokesOf_ofStore h.features
  have hnodes : nodesOf (ofStore s) = s.depicted.map fun e => (s.idOf e, s.faceOf e) := by
    rw [nodesOf, hstrokes, nodesNamed_strokes]
  have hedges : edgesOf (ofStore s) = s.depicted.flatMap fun e => s.owning e ++ s.referring e := by
    rw [edgesOf, hstrokes, edgesDrawn_strokes]
  have hlisted : ∀ e, e ∈ listed (ofStore s) ↔ e ∈ edgesOf (ofStore s) ∧ e.relation ≠ .contains := by
    intro e
    rw [listed_ofStore s, hedges, ← h.referring_perm.mem_iff,
      ← (List.flatMap_append_perm s.depicted s.owning s.referring).mem_iff, List.mem_append]
    constructor
    · intro he
      obtain ⟨a, -, b, -, href, -, rfl⟩ := h.mem_referring he
      exact ⟨Or.inr he, (relation_of_mem_references href).2⟩
    · rintro ⟨he | he, hrelation⟩
      · obtain ⟨-, -, -, -, -, hcontains⟩ := Coherent.mem_owning he
        exact absurd hcontains hrelation
      · exact he
  have hends := h.clean.ends
  rw [← hstrokes] at hends
  refine ⟨?_, hedges ▸ h.edges_perm, ?_, ?_, hlisted⟩
  · rw [hnodes, List.map_map]
    exact h.nodes_perm
  · rw [hnodes, List.map_map]
    exact h.nodup_idOf
  · intro e he
    rcases List.mem_append.mp he with he | he
    · exact hends e he
    · exact hends e ((hlisted e).mp he).1

end

end Export

namespace Batch

/-- **After a batch and a pass the export and the graph show the same**, whatever was passed over and
wherever the pass has failed. -/
theorem build_export_agrees {tree : FileTree} {settings : Settings} {base : Option Path}
    {sources : List Source} {contents : List (Option Value)} {warnings : List Warning}
    {batch : Batch} {w : Work} (hreads : List.Forall₂ Source.Reads sources contents)
    (hplain : ∀ source ∈ sources, PlainPath (knownAs base source.path))
    (hdistinct : (sources.map fun source => (knownAs base source.path).toString).Nodup)
    (hrun : (build tree settings base sources).run { store := {}, warnings } = (.ok batch, w))
    {targets : List Target} (hfree : ∀ target ∈ targets, w.store.catalog.find? target.id = none) :
    ∃ report v, LinkingPass.linkAll.run { w with store := w.store.registerTargets targets } =
        (.ok report, v) ∧
      Export.Agrees (Export.ofStore v.store) (LinkGraph.ofStore v.store) := by
  obtain ⟨report, v, -, hlink, hcoherent, -, -⟩ :=
    build_coherent hreads hplain hdistinct hrun hfree
  exact ⟨report, v, hlink, Export.agrees_of_coherent hcoherent⟩

private def gateStep (text : String) : Value :=
  .ofFields [("keyword", .text "When "), ("text", .text text)]

private def gateCell (cell : String) : Value :=
  .ofFields [("cells", .list [.ofFields [("value", .text cell)]])]

/-- A background and an outline with one row, under a tag. -/
private def gate : Value :=
  .ofFields [("feature", .ofFields [("tags", .list [.ofFields [("name", .text "@yard")]]),
    ("children", .list [
      .ofFields [("background", .ofFields [("steps", .list [gateStep "the gate is shut"])])],
      .ofFields [("scenario", .ofFields [("tags", .list [.ofFields [("name", .text "@yard")]]),
        ("steps", .list [gateStep "<n> cars wait"]), ("examples", .list [.ofFields [
          ("tableHeader", gateCell "n"), ("tableBody", .list [gateCell "3"])]])])]])])]

private def yard : List Source :=
  [⟨.ofString "yard/gate.feature", pure (some gate)⟩, ⟨.ofString "yard/fence.feature", pure none⟩]

private def yardTargets : List Target :=
  [.definition { id := "d", keyword := "When", pattern := .text "(.*) cars" },
    .transform { id := "t", keyword := "Transform", pattern := .text "[0-9]" }]

private def buildYard : Except Fault Batch × Work :=
  (build { workingDirectory := .ofString "/" } {} none yard).run { store := {} }

private def linkYard : Except Fault LinkReport × Work :=
  LinkingPass.linkAll.run
    { buildYard.2 with store := buildYard.2.store.registerTargets yardTargets }

/-- The objects of one feature, and the edges between them. -/
theorem build_export_agrees_yard : ∃ report v, linkYard = (.ok report, v) ∧
    (Export.nodesOf (Export.ofStore v.store)).length = 11 ∧
    (Export.edgesOf (Export.ofStore v.store)).length = 11 ∧
    Export.Agrees (Export.ofStore v.store) (LinkGraph.ofStore v.store) := by
  have hpure (path : Path) (content : Option Value) :
      Source.Reads ⟨path, pure content⟩ content := by
    rintro w c w' ⟨⟩
    exact ⟨rfl, rfl⟩
  have hreads : List.Forall₂ Source.Reads yard _ := .cons (hpure _ _) (.cons (hpure _ _) .nil)
  have hplain : ∀ source ∈ yard, PlainPath (knownAs none source.path) := by
    have hknown : yard.map (fun source => knownAs none source.path) = yard.map Source.path := by
      decide +kernel
    intro source hsource
    rw [List.map_inj_left.mp hknown source hsource]
    simp only [yard, List.mem_cons, List.not_mem_nil, or_false] at hsource
    rcases hsource with rfl | rfl
    all_goals exact plainPath_ofString (by decide) (by decide)
  have hbuilt : buildYard.1.isOk := by decide +kernel
  have hfree : ∀ target ∈ yardTargets, buildYard.2.store.catalog.find? target.id = none := by
    decide +kernel
  have hnodes : (Export.nodesOf (Export.ofStore linkYard.2.store)).length = 11 := by decide +kernel
  have hedges : (Export.edgesOf (Export.ofStore linkYard.2.store)).length = 11 := by decide +kernel
  have hagrees (batch : Batch) (w : Work)
      (hrun : (build { workingDirectory := .ofString "/" } {} none yard).run { store := {} } =
        (.ok batch, w)) (hfree : ∀ target ∈ yardTargets, w.store.catalog.find? target.id = none) :=
    build_export_agrees hreads hplain (by decide +kernel) hrun hfree
  generalize hlinked : linkYard = linked at hnodes hedges ⊢
  unfold linkYard at hlinked
  unfold buildYard at hbuilt hfree hlinked
  generalize (build { workingDirectory := .ofString "/" } {} none yard).run { store := {} } = built
    at hbuilt hfree hlinked hagrees
  obtain ⟨fault | batch, w⟩ := built
  · cases hbuilt
  · obtain ⟨report, v, hlink, hexport⟩ := hagrees batch w rfl hfree
    have hsame : linked = (.ok report, v) := hlinked.symm.trans hlink
    rw [hsame] at hnodes hedges
    exact ⟨report, v, hsame, hnodes, hedges, hexport⟩

end Batch

end StepTrace
