import StepTrace.Proofs.Tags.Accounts
import StepTrace.Proofs.View.Strokes

/-!
# What the graph of a store depicts

The graph shows the targets, the tags, and the features with all that they hold (`Store.depicted`),
each by the same strokes: a node, an edge from what it names as its owner, and an edge to everything
that it refers to (`Store.strokes`, `ofStore_eq_drawAll`).

A store is coherent if all that is depicted is registered, and if references and the records of them
are inverse to each other (`Store.Coherent`).  Then what leads to a node in the graph can be told
from its record alone: the owner that it names, and what it knows to refer to it
(`Coherent.edges_into`).
-/

namespace StepTrace

/-- The relation of the edges that lead to a record. -/
def Entry.relation : Entry → Relation
  | .tag _ => .tagged
  | .definition _ => .implementedBy
  | .transform _ => .transformedBy
  | _ => .contains

namespace Store

variable {s : Store} {r : Ref Feature} {feature id : String} {outline : Option String}

/-! ## What a record says of others -/

/-- What a record names as its owner. -/
def ownerOf? (s : Store) : Entry → Option String
  | .scenario r => some ((s.get r).outlineId.getD (s.get r).featureId)
  | .outline r => some (s.get r).featureId
  | .examples r => some (s.get r).outlineId
  | .step r => some (s.get r).scenarioId
  | _ => none

/-- The definition and the transforms of a step. -/
def linksOf (s : Store) : Entry → List Entry
  | .step r => (s.get r).definition.toList.map .definition ++ (s.get r).transforms.map .transform
  | _ => []

/-- What a record refers to: its tags, and its links. -/
def references (s : Store) (e : Entry) : List Entry :=
  (s.tagList e).map .tag ++ s.linksOf e

/-- The identifiers of what a record knows to refer to it. -/
def referrers (s : Store) : Entry → List String
  | .tag r => (s.get r).owners
  | .definition r => (s.get r).steps
  | .transform r => (s.get r).steps
  | _ => []

theorem isPart_of_ownerOf? {e : Entry} (h : (s.ownerOf? e).isSome) : e.kind.IsPart := by
  cases e with
  | scenario | outline | examples | step => trivial
  | nameSpace | feature | tag | definition | transform => cases h

/-- Features and their parts are referred to by nothing. -/
theorem referrers_eq_nil {e : Entry} (h : e.kind = .feature ∨ e.kind.IsPart) :
    e.relation = .contains ∧ s.referrers e = [] := by
  cases e with
  | feature | scenario | outline | examples | step => exact ⟨rfl, rfl⟩
  | nameSpace | tag | definition | transform => rcases h with h | h <;> cases h

/-- Tags and targets are referred to, and nothing else is. -/
theorem relation_of_mem_references {e e' : Entry} (h : e' ∈ s.references e) :
    ¬ e'.kind.IsPart ∧ e'.relation ≠ .contains := by
  rcases List.mem_append.mp h with h | h
  · obtain ⟨t, -, rfl⟩ := List.mem_map.mp h
    exact ⟨nofun, nofun⟩
  · cases e with
    | step x =>
        rcases List.mem_append.mp h with h | h
        all_goals
          obtain ⟨t, -, rfl⟩ := List.mem_map.mp h
          exact ⟨nofun, nofun⟩
    | _ => cases h

/-! ## Strokes -/

/-- What the node of a record shows. -/
def faceOf (s : Store) : Entry → NodeFace
  | .nameSpace r => ⟨Kind.nameSpace.word, .text (s.get r).name⟩
  | .feature r => ⟨Kind.feature.word, (s.get r).title⟩
  | .scenario r => ⟨(s.get r).kind.word, (s.get r).title⟩
  | .outline r => ⟨outlineWord, (s.get r).title⟩
  | .examples r => ⟨Kind.examples.word, (s.get r).name⟩
  | .step r => ⟨Kind.step.word, .text ((s.get r).keyword.display ++ (s.get r).text.display)⟩
  | .tag r => ⟨Kind.tag.word, .text (s.get r).name⟩
  | .definition r => ⟨Kind.definition.word, (s.get r).pattern⟩
  | .transform r => ⟨Kind.transform.word, (s.get r).pattern⟩

/-- The edge from the owner of a record. -/
def owning (s : Store) (e : Entry) : List Edge :=
  (s.ownerOf? e).toList.map fun owner => ⟨owner, s.idOf e, .contains⟩

/-- The edges to what a record refers to. -/
def referring (s : Store) (e : Entry) : List Edge :=
  (s.references e).map fun e' => ⟨s.idOf e, s.idOf e', e'.relation⟩

/-- The edges from what a record knows to refer to it. -/
def referred (s : Store) (e : Entry) : List Edge :=
  (s.referrers e).map fun id => ⟨id, s.idOf e, e.relation⟩

/-- How a record is drawn. -/
def strokes (s : Store) (e : Entry) : List Stroke :=
  .node (s.idOf e) (s.faceOf e) :: (s.owning e ++ s.referring e).map .edge

/-- All that is drawn. -/
def depicted (s : Store) : List Entry :=
  s.allDefinitions.map .definition ++ (s.allTransforms.map .transform ++
    (s.allTags.map .tag ++ s.allFeatures.flatMap s.featureParts))

private theorem nodesNamed_edges (edges : List Edge) (strokes : List Stroke) :
    nodesNamed (edges.map .edge ++ strokes) = nodesNamed strokes := by
  induction edges with
  | nil => rfl
  | cons e edges ih => exact ih

private theorem edgesDrawn_edges (edges : List Edge) (strokes : List Stroke) :
    edgesDrawn (edges.map .edge ++ strokes) = edges ++ edgesDrawn strokes := by
  induction edges with
  | nil => rfl
  | cons e edges ih => exact congrArg (e :: ·) ih

theorem nodesNamed_strokes (s : Store) (es : List Entry) :
    nodesNamed (es.flatMap s.strokes) = es.map fun e => (s.idOf e, s.faceOf e) := by
  induction es with
  | nil => rfl
  | cons e es ih =>
      rw [List.flatMap_cons, strokes, List.cons_append, nodesNamed_node_cons, nodesNamed_edges, ih,
        List.map_cons]

theorem edgesDrawn_strokes (s : Store) (es : List Entry) :
    edgesDrawn (es.flatMap s.strokes) = es.flatMap fun e => s.owning e ++ s.referring e := by
  induction es with
  | nil => rfl
  | cons e es ih =>
      rw [List.flatMap_cons, strokes, List.cons_append, edgesDrawn_node_cons, edgesDrawn_edges, ih,
        List.flatMap_cons]

end Store

namespace LinkGraph

open Store

variable {s : Store} {feature parent : String} {outline : Option String}

/-! ## The graph as a drawing of what is depicted -/

theorem drawAll_append (g : LinkGraph) (strokes later : List Stroke) :
    g.drawAll (strokes ++ later) = (g.drawAll strokes).drawAll later :=
  List.foldl_append ..

/-- What draws some strokes for each element draws them for a list. -/
theorem foldl_eq_drawAll {α : Type} {f : LinkGraph → α → LinkGraph} {strokes : α → List Stroke}
    {xs : List α} (h : ∀ x ∈ xs, ∀ g, f g x = g.drawAll (strokes x)) (g : LinkGraph) :
    xs.foldl f g = g.drawAll (xs.flatMap strokes) := by
  induction xs generalizing g with
  | nil => rfl
  | cons x xs ih =>
      rw [List.foldl_cons, List.flatMap_cons, drawAll_append, h x (List.mem_cons_self ..),
        ih fun y hy => h y (List.mem_cons_of_mem _ hy)]

/-- Drawing edges of one relation from one node. -/
theorem foldl_addEdge {α : Type} (owner : String) (target : α → String) (relation : Relation)
    (xs : List α) (g : LinkGraph) :
    xs.foldl (fun g x => g.addEdge owner (target x) relation) g =
      g.drawAll (xs.map fun x => .edge ⟨owner, target x, relation⟩) := by
  induction xs generalizing g with
  | nil => rfl
  | cons x xs ih => exact ih _

theorem addTags_eq (s : Store) (owner : String) (tags : List (Ref Tag)) (g : LinkGraph) :
    g.addTags s owner tags =
      g.drawAll (tags.map fun t => .edge ⟨owner, (s.get t).id, .tagged⟩) :=
  foldl_addEdge ..

/-- What has no links is drawn as a node with an edge from its owner, if it has one, and its tags. -/
theorem drawAll_strokes {e : Entry} (hlinks : s.linksOf e = []) (g : LinkGraph) :
    g.drawAll (s.strokes e) = ((s.ownerOf? e).toList.foldl
      (fun g owner => g.addEdge owner (s.idOf e) .contains)
      (g.addNode (s.idOf e) (s.faceOf e).kind (s.faceOf e).label)).addTags s (s.idOf e)
        (s.tagList e) := by
  rw [strokes, owning, referring, references, hlinks, List.append_nil, addTags_eq]
  simp only [List.map_append, List.map_map]
  cases s.ownerOf? e with
  | none => rfl
  | some owner => rfl

/-- The edges to the links of a step. -/
theorem referring_step (s : Store) (y : Ref Step) : s.referring (.step y) =
    ((s.get y).definition.toList.map fun d => ⟨(s.get y).id, (s.get d).id, .implementedBy⟩) ++
      (s.get y).transforms.map fun t => ⟨(s.get y).id, (s.get t).id, .transformedBy⟩ := by
  change (s.linksOf (.step y)).map _ = _
  rw [linksOf, List.map_append, List.map_map, List.map_map]
  rfl

theorem addStep_eq {y : Ref Step} (hparent : (s.get y).scenarioId = parent) (g : LinkGraph) :
    g.addStep s parent y = g.drawAll (s.strokes (.step y)) := by
  subst hparent
  rw [addStep, foldl_addEdge, strokes, referring_step]
  cases (s.get y).definition with
  | none => simp [drawAll, draw, owning, ownerOf?, idOf, faceOf, Function.comp_def]
  | some d => simp [drawAll, draw, owning, ownerOf?, idOf, faceOf, Function.comp_def]

theorem addSteps_eq {owner : String} {steps : List (Ref Step)}
    (h : ∀ y ∈ steps, (s.get y).scenarioId = owner) (g : LinkGraph) :
    steps.foldl (addStep s owner) g = g.drawAll ((steps.map .step).flatMap s.strokes) := by
  rw [foldl_eq_drawAll fun y hy => addStep_eq (h y hy), List.flatMap_map]

theorem addScenario_eq {x : Ref Scenario} (h : s.ScenarioNames feature outline x)
    (hparent : outline.getD feature = parent) (g : LinkGraph) :
    g.addScenario s parent x = g.drawAll ((s.scenarioParts x).flatMap s.strokes) := by
  have howner : s.ownerOf? (.scenario x) = some parent := by
    rw [ownerOf?, h.outlineId, h.featureId, hparent]
  rw [scenarioParts, List.flatMap_cons, drawAll_append, drawAll_strokes rfl, howner,
    ← addSteps_eq h.steps]
  rfl

theorem addExamples_eq {x : Ref Examples} (hparent : (s.get x).outlineId = parent) (g : LinkGraph) :
    g.addExamples s parent x = g.drawAll (s.strokes (.examples x)) := by
  subst hparent
  rw [drawAll_strokes rfl]
  rfl

theorem addOutline_eq {o : Ref Outline} (h : s.OutlineNames feature o) (g : LinkGraph) :
    g.addOutline s feature o = g.drawAll ((s.outlineParts o).flatMap s.strokes) := by
  have howner : s.ownerOf? (.outline o) = some feature := congrArg some h.featureId
  rw [outlineParts, List.flatMap_cons, List.flatMap_append, List.flatMap_append, drawAll_append,
    drawAll_append, drawAll_append, drawAll_strokes rfl, howner, ← addSteps_eq h.steps,
    List.flatMap_map, ← foldl_eq_drawAll fun x hx => addExamples_eq (h.examples x hx),
    List.flatMap_assoc, ← foldl_eq_drawAll fun x hx => addScenario_eq (h.rows x hx) rfl]
  rfl

theorem addContainer_eq {id : String} {c : Container} (h : s.ContainerPlaced feature c id)
    (g : LinkGraph) :
    g.addContainer s feature c = g.drawAll ((s.containerParts c).flatMap s.strokes) := by
  cases c with
  | scenario x => exact addScenario_eq (ScenarioPlaced.names h) rfl g
  | outline o => exact addOutline_eq (OutlinePlaced.names h) g

theorem addFeature_eq {r : Ref Feature} (h : s.FeaturePlaced r (s.get r).id) (g : LinkGraph) :
    g.addFeature s r = g.drawAll ((s.featureParts r).flatMap s.strokes) := by
  rw [featureParts, List.flatMap_cons, List.flatMap_append, drawAll_append, drawAll_append,
    drawAll_strokes rfl, List.flatMap_assoc, List.flatMap_assoc,
    ← foldl_eq_drawAll fun x hx =>
      addScenario_eq (h.background x (Option.mem_toList.mp hx)).names rfl,
    ← foldl_eq_drawAll fun c hc => addContainer_eq (h.containers.exists_of_mem hc).choose_spec]
  rfl

/-- **The graph of a store is a drawing of what is depicted.** -/
theorem ofStore_eq_drawAll (h : ∀ r ∈ s.allFeatures, s.FeaturePlaced r (s.get r).id) :
    ofStore s = drawAll {} (s.depicted.flatMap s.strokes) := by
  simp only [depicted, List.flatMap_append, drawAll_append, List.flatMap_map, List.flatMap_assoc]
  rw [← foldl_eq_drawAll fun r hr => addFeature_eq (h r hr),
    ← foldl_eq_drawAll (f := fun g t => g.drawAll (s.strokes (.tag t))) fun _ _ _ => rfl,
    ← foldl_eq_drawAll (f := fun g t => g.drawAll (s.strokes (.transform t))) fun _ _ _ => rfl,
    ← foldl_eq_drawAll (f := fun g d => g.drawAll (s.strokes (.definition d))) fun _ _ _ => rfl]
  rfl

end LinkGraph

end StepTrace
