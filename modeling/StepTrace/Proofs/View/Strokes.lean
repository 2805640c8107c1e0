import StepTrace.Proofs.OrderedMap
import StepTrace.View.Graph

/-!
# The graph as a drawing

The graph of a store is drawn stroke by stroke: a stroke names a node or draws an edge.  What comes
of a list of strokes is known as soon as no node is named twice, no edge is drawn over another one,
and the ends of all edges are nodes that are named: these nodes with their faces, and these edges,
whatever the order of the strokes is (`drawAll_nodes`, `drawAll_edges`).
-/

namespace StepTrace

/-- One stroke of a drawing. -/
inductive Stroke where
  | node (id : String) (face : NodeFace)
  | edge (e : Edge)
deriving Inhabited

namespace Stroke

def node? : Stroke → Option (String × NodeFace)
  | node id face => some (id, face)
  | edge _ => none

def edge? : Stroke → Option Edge
  | node _ _ => none
  | edge e => some e

end Stroke

/-- The two ends of an edge. -/
def Edge.ends (e : Edge) : String × String :=
  (e.source, e.target)

/-- The nodes that strokes name, in order. -/
def nodesNamed (strokes : List Stroke) : List (String × NodeFace) :=
  strokes.filterMap Stroke.node?

/-- The edges that strokes draw, in order. -/
def edgesDrawn (strokes : List Stroke) : List Edge :=
  strokes.filterMap Stroke.edge?

section

variable (id : String) (face : NodeFace) (e : Edge) (strokes later : List Stroke)

@[simp] theorem nodesNamed_node_cons :
    nodesNamed (.node id face :: strokes) = (id, face) :: nodesNamed strokes :=
  rfl

@[simp] theorem nodesNamed_edge_cons : nodesNamed (.edge e :: strokes) = nodesNamed strokes :=
  rfl

@[simp] theorem edgesDrawn_node_cons : edgesDrawn (.node id face :: strokes) = edgesDrawn strokes :=
  rfl

@[simp] theorem edgesDrawn_edge_cons : edgesDrawn (.edge e :: strokes) = e :: edgesDrawn strokes :=
  rfl

end

/-- No node is named twice, no edge is drawn over another one, and every edge ends at nodes that are
named. -/
structure CleanStrokes (strokes : List Stroke) : Prop where
  nodes : ((nodesNamed strokes).map (·.1)).Nodup
  edges : ((edgesDrawn strokes).map Edge.ends).Nodup
  ends : ∀ e ∈ edgesDrawn strokes,
    e.source ∈ (nodesNamed strokes).map (·.1) ∧ e.target ∈ (nodesNamed strokes).map (·.1)

namespace LinkGraph

variable {g : LinkGraph} {stroke : Stroke} {strokes : List Stroke} {id : String} {e : Edge}

def draw (g : LinkGraph) : Stroke → LinkGraph
  | .node id face => g.addNode id face.kind face.label
  | .edge e => g.addEdge e.source e.target e.relation

def drawAll (g : LinkGraph) (strokes : List Stroke) : LinkGraph :=
  strokes.foldl draw g

/-! ## One stroke -/

theorem keys_touch (g : LinkGraph) (id : String) :
    (∀ other, other ∈ (g.touch id).nodes.keys ↔ other ∈ g.nodes.keys ∨ other = id) ∧
      (g.nodes.keys.Nodup → (g.touch id).nodes.keys.Nodup) := by
  unfold touch
  split
  · rename_i hmem
    refine ⟨fun other => (or_iff_left_of_imp ?_).symm, fun h => h⟩
    rintro rfl
    exact OrderedMap.contains_iff.mp hmem
  · exact ⟨fun other => OrderedMap.mem_keys_insert none, fun h => OrderedMap.nodup_keys_insert h id none⟩

/-- Touching a node does not change what nodes show. -/
theorem find?_touch {face : Option NodeFace} (h : g.nodes.find? id = some face) (other : String) :
    (g.touch other).nodes.find? id = some face := by
  unfold touch
  split
  · exact h
  · rename_i hnone
    rw [OrderedMap.find?_insert_of_ne none ?_, h]
    rintro rfl
    rw [OrderedMap.contains, h] at hnone
    exact hnone rfl

theorem drawn_touch (g : LinkGraph) (id : String) : (g.touch id).drawn = g.drawn := by
  unfold touch
  split <;> rfl

theorem mem_keys_draw_node (face : NodeFace) (other : String) :
    other ∈ (g.draw (.node id face)).nodes.keys ↔ other ∈ g.nodes.keys ∨ other = id :=
  OrderedMap.mem_keys_insert _

theorem mem_keys_draw_edge (other : String) : other ∈ (g.draw (.edge e)).nodes.keys ↔
    other ∈ g.nodes.keys ∨ other = e.source ∨ other = e.target := by
  rw [show (g.draw (.edge e)).nodes = ((g.touch e.source).touch e.target).nodes from rfl,
    (keys_touch _ _).1, (keys_touch _ _).1, or_assoc]

theorem nodup_keys_draw (h : g.nodes.keys.Nodup) (stroke : Stroke) :
    (g.draw stroke).nodes.keys.Nodup := by
  cases stroke with
  | node id face => exact OrderedMap.nodup_keys_insert h id _
  | edge e => exact (keys_touch _ _).2 ((keys_touch _ _).2 h)

/-- A node shows the same until it is named again. -/
theorem find?_draw {face : Option NodeFace} (h : g.nodes.find? id = some face)
    (hne : ∀ node, stroke.node? = some node → node.1 ≠ id) :
    (g.draw stroke).nodes.find? id = some face := by
  cases stroke with
  | node other face' =>
      exact (OrderedMap.find?_insert_of_ne _ (hne _ rfl).symm).trans h
  | edge e => exact find?_touch (find?_touch h _) _

theorem drawn_draw_edge (g : LinkGraph) (e : Edge) :
    (g.draw (.edge e)).drawn = g.drawn.insert e.ends e.relation := by
  change ((g.touch e.source).touch e.target).drawn.insert e.ends e.relation = _
  rw [drawn_touch, drawn_touch]

/-! ## Many strokes -/

theorem mem_keys_drawAll (strokes : List Stroke) (g : LinkGraph) :
    id ∈ (g.drawAll strokes).nodes.keys ↔ id ∈ g.nodes.keys ∨
      id ∈ (nodesNamed strokes).map (·.1) ∨
        ∃ e ∈ edgesDrawn strokes, id = e.source ∨ id = e.target := by
  induction strokes generalizing g with
  | nil => simp [drawAll, nodesNamed, edgesDrawn]
  | cons stroke strokes ih =>
      change id ∈ ((g.draw stroke).drawAll strokes).nodes.keys ↔ _
      rw [ih]
      cases stroke with
      | node other face =>
          rw [mem_keys_draw_node, nodesNamed_node_cons, edgesDrawn_node_cons, List.map_cons,
            List.mem_cons, or_assoc, or_assoc]
      | edge e =>
          rw [mem_keys_draw_edge, nodesNamed_edge_cons, edgesDrawn_edge_cons]
          simp only [List.exists_mem_cons_iff]
          rw [or_assoc]
          exact or_congr_right or_left_comm

theorem nodup_keys_drawAll (strokes : List Stroke) (h : g.nodes.keys.Nodup) :
    (g.drawAll strokes).nodes.keys.Nodup := by
  induction strokes generalizing g with
  | nil => exact h
  | cons stroke strokes ih => exact ih (nodup_keys_draw h stroke)

theorem find?_drawAll_of_not_mem {face : Option NodeFace} (h : g.nodes.find? id = some face)
    (hne : id ∉ (nodesNamed strokes).map (·.1)) :
    (g.drawAll strokes).nodes.find? id = some face := by
  induction strokes generalizing g with
  | nil => exact h
  | cons stroke strokes ih =>
      refine ih (find?_draw h ?_) ?_
      · rintro node hnode rfl
        refine hne (List.mem_map_of_mem (List.mem_filterMap.mpr ⟨stroke, List.mem_cons_self .., hnode⟩))
      · intro hmem
        obtain ⟨node, hnode, rfl⟩ := List.mem_map.mp hmem
        obtain ⟨other, hother, hnode⟩ := List.mem_filterMap.mp hnode
        exact hne (List.mem_map_of_mem
          (List.mem_filterMap.mpr ⟨other, List.mem_cons_of_mem _ hother, hnode⟩))

/-- A node that is named once shows what it was named with. -/
theorem find?_drawAll (hnodup : ((nodesNamed strokes).map (·.1)).Nodup) {node : String × NodeFace}
    (hnode : node ∈ nodesNamed strokes) :
    (g.drawAll strokes).nodes.find? node.1 = some (some node.2) := by
  induction strokes generalizing g with
  | nil => cases hnode
  | cons stroke strokes ih =>
      cases stroke with
      | edge e => exact ih hnodup hnode
      | node id face =>
          obtain ⟨hnew, hnodup⟩ := List.nodup_cons.mp hnodup
          rcases List.mem_cons.mp hnode with rfl | hnode
          · have hself : (g.draw (.node id face)).nodes.find? id = some (some face) :=
              OrderedMap.find?_insert_self ..
            exact find?_drawAll_of_not_mem (g := g.draw (.node id face)) hself hnew
          · exact ih hnodup hnode

/-- Edges of different ends are all there, in the order in which they were drawn. -/
theorem drawn_drawAll (strokes : List Stroke) (g : LinkGraph)
    (hnodup : (g.drawn.keys ++ (edgesDrawn strokes).map Edge.ends).Nodup) :
    (g.drawAll strokes).drawn.entries =
      g.drawn.entries ++ (edgesDrawn strokes).map fun e => (e.ends, e.relation) := by
  induction strokes generalizing g with
  | nil => exact (List.append_nil _).symm
  | cons stroke strokes ih =>
      cases stroke with
      | node id face => exact ih (g.draw (.node id face)) hnodup
      | edge e =>
          have hne : e.ends ∉ g.drawn.keys := fun hmem =>
            List.disjoint_of_nodup_append hnodup hmem (List.mem_cons_self ..)
          have hkeys : (g.draw (.edge e)).drawn.keys = g.drawn.keys ++ [e.ends] := by
            rw [drawn_draw_edge, OrderedMap.keys_insert_of_not_mem _ hne]
          refine (ih (g.draw (.edge e)) ?_).trans ?_
          · rw [hkeys, List.append_assoc]
            exact hnodup
          · rw [drawn_draw_edge, OrderedMap.insert_of_not_mem _ hne, List.append_assoc]
            rfl

/-! ## A whole drawing -/

theorem entries_drawAll (h : CleanStrokes strokes) : (drawAll {} strokes).drawn.entries =
    (edgesDrawn strokes).map fun e => (e.ends, e.relation) :=
  drawn_drawAll strokes {} h.edges

/-- Every edge starts at a node. -/
theorem sources_drawAll (h : CleanStrokes strokes) : ∀ entry ∈ (drawAll {} strokes).drawn.entries,
    entry.1.1 ∈ (drawAll {} strokes).nodes.keys := by
  intro entry hentry
  rw [entries_drawAll h] at hentry
  obtain ⟨e, he, rfl⟩ := List.mem_map.mp hentry
  exact (mem_keys_drawAll strokes {}).mpr (Or.inr (Or.inr ⟨e, he, Or.inl rfl⟩))

/-- Lists taken apart by keys, and put together again. -/
theorem flatMap_filter_perm {α κ : Type} [DecidableEq κ] (f : α → κ) {keys : List κ}
    (hkeys : keys.Nodup) {xs : List α} (hxs : ∀ x ∈ xs, f x ∈ keys) :
    (keys.flatMap fun key => xs.filter fun x => f x = key).Perm xs := by
  induction keys generalizing xs with
  | nil =>
      rw [List.eq_nil_iff_forall_not_mem.mpr fun x hx => List.not_mem_nil (hxs x hx)]
      exact .nil
  | cons key keys ih =>
      obtain ⟨hnew, hkeys⟩ := List.nodup_cons.mp hkeys
      have hrest : (keys.flatMap fun other => xs.filter fun x => f x = other) =
          keys.flatMap fun other => (xs.filter fun x => ¬ f x = key).filter fun x => f x = other := by
        refine List.flatMap_congr fun other hother => ?_
        rw [List.filter_filter]
        refine List.filter_congr fun x _ => ?_
        by_cases hx : f x = other
        · have hne : other ≠ key := fun heq => hnew (heq ▸ hother)
          simp [hx, hne]
        · simp [hx]
      rw [List.flatMap_cons, hrest]
      refine ((ih hkeys ?_).append_left _).trans ?_
      · intro x hx
        obtain ⟨hmem, hne⟩ := List.mem_filter.mp hx
        exact (List.mem_cons.mp (hxs x hmem)).resolve_left (of_decide_eq_true hne)
      · have hperm := List.filter_append_perm (fun x => decide (f x = key)) xs
        simpa using hperm

/-- **The edges of a drawing are those that were drawn.** -/
theorem drawAll_edges (h : CleanStrokes strokes) :
    (drawAll {} strokes).edges.Perm (edgesDrawn strokes) := by
  have hperm := flatMap_filter_perm (fun entry : (String × String) × Relation => entry.1.1)
    (nodup_keys_drawAll (g := {}) strokes List.nodup_nil) (sources_drawAll h)
  have hmap := hperm.map fun drawn => (⟨drawn.1.1, drawn.1.2, drawn.2⟩ : Edge)
  rw [List.map_flatMap] at hmap
  refine hmap.trans (.of_eq ?_)
  rw [entries_drawAll h, List.map_map]
  exact List.map_id _

/-- **The nodes of a drawing are those that were named, with what they were named with.** -/
theorem drawAll_nodes (h : CleanStrokes strokes) :
    (drawAll {} strokes).nodes.entries.Perm
      ((nodesNamed strokes).map fun node => (node.1, some node.2)) := by
  have hkeys := nodup_keys_drawAll (g := {}) strokes List.nodup_nil
  have hnamed : ((nodesNamed strokes).map fun node => (node.1, some node.2)).Nodup := by
    refine List.Nodup.of_map (·.1) ?_
    rw [List.map_map]
    exact h.nodes
  have hentries : (drawAll {} strokes).nodes.entries.Nodup :=
    List.Nodup.of_map Prod.fst hkeys
  refine (List.perm_ext_iff_of_nodup hentries hnamed).mpr ?_
  rintro ⟨id, face⟩
  rw [← OrderedMap.find?_eq_some_iff hkeys, List.mem_map]
  constructor
  · intro hfind
    have hmem : id ∈ (nodesNamed strokes).map (·.1) := by
      rcases (mem_keys_drawAll strokes {}).mp (OrderedMap.mem_keys_of_find?_eq_some hfind) with
        hnil | hnamed | ⟨e, he, rfl | rfl⟩
      · cases hnil
      · exact hnamed
      · exact (h.ends e he).1
      · exact (h.ends e he).2
    obtain ⟨node, hnode, rfl⟩ := List.mem_map.mp hmem
    rw [find?_drawAll h.nodes hnode] at hfind
    exact ⟨node, hnode, by rw [Option.some.inj hfind]⟩
  · rintro ⟨node, hnode, heq⟩
    cases heq
    exact find?_drawAll h.nodes hnode

end LinkGraph

end StepTrace
