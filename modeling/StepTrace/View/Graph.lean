import StepTrace.Trace.Store

/-!
# The link graph

The graph of what contains what, what a step is implemented and transformed by, and what is tagged
with what.  Nodes come in the order in which they are first named, and edges by their source, in the
order in which they are first drawn; drawing an edge names both its ends.  Naming a node again
changes what it shows, drawing an edge again changes its relation.

Main definition: `LinkGraph.ofStore`.
-/

namespace StepTrace

/-- What an edge says. -/
inductive Relation where
  | contains
  | implementedBy
  | tagged
  | transformedBy
deriving DecidableEq, Repr, Inhabited

namespace Relation

/-- All relations, in the order of their words. -/
def all : List Relation :=
  [contains, implementedBy, tagged, transformedBy]

/-- The word for a relation. -/
def word : Relation → String
  | contains => "contains"
  | implementedBy => "implemented_by"
  | tagged => "tagged"
  | transformedBy => "transformed_by"

end Relation

/-- What a node shows. -/
structure NodeFace where
  /-- The word for what the node stands for. -/
  kind : String
  label : Value
deriving Repr, Inhabited

/-- An edge of the graph. -/
structure Edge where
  source : String
  target : String
  relation : Relation
deriving DecidableEq, Repr, Inhabited

/-- A directed graph with at most one edge from one node to another. -/
structure LinkGraph where
  /-- The nodes, without a face if they are only the end of an edge. -/
  nodes : OrderedMap String (Option NodeFace) := .empty
  /-- The relations by source and target, in the order of drawing. -/
  drawn : OrderedMap (String × String) Relation := .empty
deriving Inhabited

namespace LinkGraph

/-- Names a node. -/
def addNode (g : LinkGraph) (id kind : String) (label : Value) : LinkGraph :=
  { g with nodes := g.nodes.insert id (some ⟨kind, label⟩) }

/-- Names a node without saying what it shows. -/
def touch (g : LinkGraph) (id : String) : LinkGraph :=
  if g.nodes.contains id then g else { g with nodes := g.nodes.insert id none }

/-- Draws an edge. -/
def addEdge (g : LinkGraph) (source target : String) (relation : Relation) : LinkGraph :=
  let g := (g.touch source).touch target
  { g with drawn := g.drawn.insert (source, target) relation }

/-- The edges, by source in the order of nodes. -/
def edges (g : LinkGraph) : List Edge :=
  g.nodes.keys.flatMap fun source =>
    (g.drawn.entries.filter fun entry => entry.1.1 = source).map fun ((source, target), relation) =>
      ⟨source, target, relation⟩

/-- The number of edges of each relation that occurs, by the words of the relations. -/
def edgeCounts (g : LinkGraph) : List (String × Nat) :=
  (Relation.all.map fun relation =>
    (relation.word, (g.drawn.values.filter (· = relation)).length)).filter fun count => count.2 ≠ 0

/-- The nodes that an identifier means: the node itself, or if there is none of that name, the
nodes that its characters name. -/
def nodesMeant (g : LinkGraph) (id : String) : List String :=
  if g.nodes.contains id then [id]
  else ((id.toList.map String.singleton).filter g.nodes.contains).eraseDups

/-- The steps that are implemented or transformed by what the identifier means, sorted. -/
def stepsImplementedBy (g : LinkGraph) (id : String) : List String :=
  let meant := g.nodesMeant id
  let found := g.edges.filter fun edge =>
    edge.target ∈ meant ∧ (edge.relation = .implementedBy ∨ edge.relation = .transformedBy)
  (found.map (·.source)).mergeSort fun a b => decide (a ≤ b)

/-! ## The graph of a store -/

/-- The graph with an owner tagged. -/
def addTags (s : Store) (owner : String) (tags : List (Ref Tag)) (g : LinkGraph) : LinkGraph :=
  tags.foldl (fun g r => g.addEdge owner (s.get r).id .tagged) g

/-- The graph with a step and its links. -/
def addStep (s : Store) (parent : String) (g : LinkGraph) (r : Ref Step) : LinkGraph :=
  let step := s.get r
  let g := g.addNode step.id Kind.step.word (.text (step.keyword.display ++ step.text.display))
  let g := g.addEdge parent step.id .contains
  let g := match step.definition with
    | some d => g.addEdge step.id (s.get d).id .implementedBy
    | none => g
  step.transforms.foldl (fun g t => g.addEdge step.id (s.get t).id .transformedBy) g

/-- The graph with a scenario and its steps. -/
def addScenario (s : Store) (parent : String) (g : LinkGraph) (r : Ref Scenario) : LinkGraph :=
  let scenario := s.get r
  let g := g.addNode scenario.id scenario.kind.word scenario.title
  let g := g.addEdge parent scenario.id .contains
  let g := g.addTags s scenario.id scenario.tags
  scenario.steps.foldl (addStep s scenario.id) g

/-- The graph with an examples table. -/
def addExamples (s : Store) (parent : String) (g : LinkGraph) (r : Ref Examples) : LinkGraph :=
  let examples := s.get r
  let g := g.addNode examples.id Kind.examples.word examples.name
  let g := g.addEdge parent examples.id .contains
  g.addTags s examples.id examples.tags

/-- The graph with an outline, its examples and its scenarios. -/
def addOutline (s : Store) (parent : String) (g : LinkGraph) (r : Ref Outline) : LinkGraph :=
  let outline := s.get r
  let g := g.addNode outline.id outlineWord outline.title
  let g := g.addEdge parent outline.id .contains
  let g := g.addTags s outline.id outline.tags
  let g := outline.steps.foldl (addStep s outline.id) g
  let g := outline.examples.foldl (addExamples s outline.id) g
  outline.scenarios.foldl (addScenario s outline.id) g

/-- The graph with what stands in a feature. -/
def addContainer (s : Store) (parent : String) (g : LinkGraph) : Container → LinkGraph
  | .scenario r => g.addScenario s parent r
  | .outline r => g.addOutline s parent r

/-- The graph with a feature and all that it holds. -/
def addFeature (s : Store) (g : LinkGraph) (r : Ref Feature) : LinkGraph :=
  let feature := s.get r
  let g := g.addNode feature.id Kind.feature.word feature.title
  let g := g.addTags s feature.id feature.tags
  let g := feature.background.toList.foldl (addScenario s feature.id) g
  feature.scenarios.foldl (addContainer s feature.id) g

/-- The graph of what is registered. -/
def ofStore (s : Store) : LinkGraph :=
  let g : LinkGraph := {}
  let g := s.allDefinitions.foldl (fun g r =>
    let d := s.get r
    g.addNode d.id Kind.definition.word d.pattern) g
  let g := s.allTransforms.foldl (fun g r =>
    let t := s.get r
    g.addNode t.id Kind.transform.word t.pattern) g
  let g := s.allTags.foldl (fun g r =>
    let t := s.get r
    g.addNode t.id Kind.tag.word (.text t.name)) g
  s.allFeatures.foldl (addFeature s) g

end LinkGraph

end StepTrace
