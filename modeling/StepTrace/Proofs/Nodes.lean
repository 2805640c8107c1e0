import StepTrace.Assembly.Feature
import StepTrace.Proofs.Build.Ensures
import StepTrace.Proofs.Identifier

/-!
# Nodes of a document

What builders find in the nodes of a document, as far as it can be read: the value under a key, the
elements of a list, the backgrounds and scenarios of a document in the order in which they are built,
those of rules included (`Value.backgrounds`, `Value.keptScenarios`), the head of a node
(`Store.HeadOf`), and the records that come in for it (`Build.ScenarioComesIn`,
`Build.OutlineComesIn`).

Which builder is called on which node is settled once, for any statement about what builders ensure.
If what is ensured of one child after the other adds up (`Build.AddsUp`), it is enough to look at the
builders of backgrounds, outlines and plain scenarios (`Build.AddsUp.children`); and of a document
that is built nothing is of interest but what is done with its feature once that has come in
(`Build.ensures_document`).
-/

namespace StepTrace

namespace Value

/-- The elements of a field, if there are any. -/
def itemsOf (node : Value) (key : String) : List Value :=
  (node.elementsOf key).toOption.getD []

/-- The part of a value under a key. -/
def partOf (node : Value) (key : String) : Value :=
  (node.field key).toOption.getD .null

/-- Is the node passed over, since it has a tag of one of the names? -/
def isExcluded (names : List String) (node : Value) : Bool :=
  (do declaresExcluded names (← node.field "tags")).toOption.getD false

/-- The background node of a child of a rule, if it is one. -/
def ruleBackgrounds (child : Value) : List Value :=
  if (child.partOf "background").isPresent then [child.partOf "background"] else []

/-- The scenario node of a child of a rule, if it is one. -/
def ruleScenarios (child : Value) : List Value :=
  if (child.partOf "background").isPresent then []
  else if (child.partOf "scenario").isPresent then [child.partOf "scenario"]
  else []

/-- The background nodes of a child of a feature: itself, or those of a rule. -/
def childBackgrounds (child : Value) : List Value :=
  if (child.partOf "background").isPresent then [child.partOf "background"]
  else if (child.partOf "scenario").isPresent then []
  else if (child.partOf "rule").isPresent then
    ((child.partOf "rule").itemsOf "children").flatMap ruleBackgrounds
  else []

/-- The scenario nodes of a child of a feature: itself, or those of a rule. -/
def childScenarios (child : Value) : List Value :=
  if (child.partOf "background").isPresent then []
  else if (child.partOf "scenario").isPresent then [child.partOf "scenario"]
  else if (child.partOf "rule").isPresent then
    ((child.partOf "rule").itemsOf "children").flatMap ruleScenarios
  else []

/-- The background nodes of a document. -/
def backgrounds (content : Value) : List Value :=
  ((content.partOf "feature").itemsOf "children").flatMap childBackgrounds

/-- The scenario nodes of a document that are kept. -/
def keptScenarios (names : List String) (content : Value) : List Value :=
  (((content.partOf "feature").itemsOf "children").flatMap childScenarios).filter
    fun node => !node.isExcluded names

variable {node : Value} {key : String}

theorem itemsOf_eq {items : List Value} (h : node.elementsOf key = .ok items) :
    node.itemsOf key = items := by
  rw [itemsOf, h]
  rfl

theorem partOf_eq {part : Value} (h : node.field key = .ok part) : node.partOf key = part := by
  rw [partOf, h]
  rfl

/-- A part that does not count as present has no elements. -/
theorem itemsOf_of_absent (h : (node.partOf key).isPresent = false) : node.itemsOf key = [] := by
  unfold partOf at h
  unfold itemsOf elementsOf
  cases hpart : node.field key with
  | error => rfl
  | ok part =>
      rw [hpart] at h
      have habsent : part.orElse (.list []) = .list [] := if_neg (ne_true_of_eq_false h)
      exact congrArg (fun v : Value => v.elements.toOption.getD []) habsent

/-- A node that is passed over is not kept. -/
theorem kept_of_excluded {names : List String} (h : node.isExcluded names = true) :
    ([node].filter fun n => !n.isExcluded names) = [] := by
  simp [h]

/-- A node that is not passed over is kept. -/
theorem kept_of_not_excluded {names : List String} (h : node.isExcluded names = false) :
    ([node].filter fun n => !n.isExcluded names) = [node] := by
  simp [h]

end Value

/-- The head of a node: its keyword, title, location and description. -/
structure Store.HeadOf (file : String) (node keyword title : Value) (location : Location)
    (description : Value) : Prop where
  keyword : node.field "keyword" (.text "") = .ok keyword
  title : optionalField node "name" = .ok title
  location : locationOf node file = .ok location
  description : optionalField node "description" = .ok description

namespace Build

open Store Value

variable {s s' s'' : Store} {site : Site} {r : Ref Feature} {node : Value}

/-! ## One node -/

/-- The test for excluded names, if it comes to an end, says which nodes are kept. -/
theorem isExcluded_of_check {names : List String} {excluded : Bool}
    (h : (do declaresExcluded names (← node.field "tags")) = .ok excluded) :
    node.isExcluded names = excluded := by
  rw [isExcluded, h]
  rfl

/-- What is ensured of a builder once it has read the head of its node. -/
theorem ensures_bind_head {α : Type} {file : String} {I : Store → Prop} {R : α → Store → Prop}
    {f : Value → Value → Location → Value → Build α} (hI : I s)
    (hf : ∀ keyword title location description,
      HeadOf file node keyword title location description →
        Ensures (f keyword title location description) s I R) :
    Ensures (do
      let keyword ← check (node.field "keyword" (.text ""))
      let title ← check (optionalField node "name")
      let location ← check (locationOf node file)
      let description ← check (optionalField node "description")
      f keyword title location description) s I R := by
  refine ensures_bind_check hI fun keyword hkeyword => ?_
  refine ensures_bind_check hI fun title htitle => ?_
  refine ensures_bind_check hI fun location hlocation => ?_
  refine ensures_bind_check hI fun description hdescription => ?_
  exact hf keyword title location description ⟨hkeyword, htitle, hlocation, hdescription⟩

/-- A scenario node is passed over, or built as an outline if it has examples and as a plain scenario
if it has none. -/
theorem ensures_scenario {I : Store → Prop} {R : Unit → Store → Prop} (hI : I s)
    (hpassed : node.isExcluded site.excluded = true → R () s)
    (houtline : node.isExcluded site.excluded = false →
      (node.partOf "examples").isPresent = true → Ensures (outline site r node) s I R)
    (hplain : node.isExcluded site.excluded = false →
      (node.partOf "examples").isPresent = false → Ensures (plainScenario site r node) s I R) :
    Ensures (scenario site (some r) node) s I R := by
  unfold scenario requireFeature
  refine ensures_bind_check hI fun excluded hexcluded => ?_
  have hkept := isExcluded_of_check hexcluded
  split
  · rename_i hyes
    exact .pure hI (hpassed (hkept.trans hyes))
  · rename_i hno
    have hnot := hkept.trans (eq_false_of_ne_true hno)
    refine ensures_bind_check hI fun tables htables => ?_
    rw [partOf_eq htables] at houtline hplain
    split
    · rename_i hpresent
      exact ensures_bind_some? hI fun | _, rfl => houtline hnot hpresent
    · rename_i habsent
      exact ensures_bind_some? hI fun | _, rfl => hplain hnot (eq_false_of_ne_true habsent)

/-! ## Records that come in for a node -/

/-- The label of the next container of a feature. -/
abbrev nextLabel (s : Store) (r : Ref Feature) : String :=
  scenarioLabel ((s.get r).scenarios.length + 1)

/-- The identifier of the next container of a feature. -/
abbrev nextPart (s : Store) (r : Ref Feature) : String :=
  part (s.get r).id (nextLabel s r)

/-- A background or plain scenario as it comes in for a node: in its place in the feature, and still
without tags and steps. -/
structure ScenarioComesIn (site : Site) (s : Store) (r : Ref Feature) (label : String)
    (kind : ScenarioKind) (node : Value) (x : Scenario) : Prop where
  id : x.id = part (s.get r).id label
  kind : x.kind = kind
  featureId : x.featureId = (s.get r).id
  outlineId : x.outlineId = none
  head : HeadOf site.file node x.keyword x.title x.location x.description
  tags : x.tags = []
  steps : x.steps = []

/-- An outline as it comes in for a node: under the next number of the feature, and still empty. -/
structure OutlineComesIn (site : Site) (s : Store) (r : Ref Feature) (node : Value) (x : Outline) :
    Prop where
  id : x.id = nextPart s r
  featureId : x.featureId = (s.get r).id
  head : HeadOf site.file node x.keyword x.title x.location x.description
  tags : x.tags = []
  steps : x.steps = []
  examples : x.examples = []
  scenarios : x.scenarios = []

/-- What is done of a node once a plain scenario has come in for it. -/
def fillScenario (site : Site) (node : Value) (feature : Ref Feature) (r : Ref Scenario) :
    Build Unit := do
  declareAll site.file (← check (node.field "tags")) (some (.scenario r))
  change feature fun f => { f with scenarios := f.scenarios ++ [.scenario r] }
  steps site node (.scenario r)
  change feature fun f => { f with totalScenarios := f.totalScenarios + 1 }
  countScenarios 1 (some (← read feature).tags) [] (← read r).tags

/-- What is done of a node once an outline has come in for it. -/
def fillOutline (site : Site) (node : Value) (feature : Ref Feature) (r : Ref Outline) :
    Build Unit := do
  declareAll site.file (← check (node.field "tags")) (some (.outline r))
  steps site node (.outline r)
  (← check (node.elementsOf "examples")).forM (examples site r)
  let total := (← read r).scenarios.length
  change feature fun f => { f with
    scenarios := f.scenarios ++ [.outline r]
    totalScenarios := f.totalScenarios + total }
  countScenarios total (some (← read feature).tags) [] (← read r).tags

section

variable {I : Store → Prop} {R : Unit → Store → Prop}

/-- A background comes in, takes its place, and gets its steps. -/
theorem ensures_background (hI : I s)
    (hfill : ∀ x, ScenarioComesIn site s r backgroundLabel .background node x →
      Ensures (do
        change r fun f => { f with background := some (s.register x).2 }
        steps site node (.scenario (s.register x).2)) (s.register x).1 I R) :
    Ensures (background site (some r) node) s I R := by
  unfold background requireFeature
  refine ensures_bind_some? hI ?_
  rintro _ ⟨⟩
  rw [ensures_bind_read]
  refine ensures_bind_head hI fun keyword title location description hhead => ?_
  rw [ensures_bind_register]
  exact hfill _ ⟨part_background _, rfl, rfl, rfl, hhead, rfl, rfl⟩

/-- A plain scenario comes in and is filled. -/
theorem ensures_plainScenario (hI : I s)
    (hfill : ∀ x, ScenarioComesIn site s r (nextLabel s r) .scenario node x →
      Ensures (fillScenario site node r (s.register x).2) (s.register x).1 I R) :
    Ensures (plainScenario site r node) s I R := by
  unfold plainScenario
  rw [ensures_bind_read]
  refine ensures_bind_head hI fun keyword title location description hhead => ?_
  rw [ensures_bind_register]
  exact hfill _ ⟨part_scenario _ _, rfl, rfl, rfl, hhead, rfl, rfl⟩

/-- An outline comes in and is filled. -/
theorem ensures_outline (hI : I s)
    (hfill : ∀ x, OutlineComesIn site s r node x →
      Ensures (fillOutline site node r (s.register x).2) (s.register x).1 I R) :
    Ensures (outline site r node) s I R := by
  unfold outline
  rw [ensures_bind_read]
  refine ensures_bind_head hI fun keyword title location description hhead => ?_
  rw [ensures_bind_register]
  exact hfill _ ⟨part_scenario _ _, rfl, hhead, rfl, rfl, rfl, rfl⟩

end

/-! ## One child after the other -/

/-- What the builders of children ensure adds up: from a store that is ready, those of backgrounds,
outlines and plain scenarios leave `I` in any case, and come to `Q` for the backgrounds and the kept
scenarios that they have gone through. -/
structure AddsUp (site : Site) (r : Ref Feature) (Ready : Store → Prop)
    (I : Store → Store → Prop) (Q : List Value → List Value → Store → Store → Prop) : Prop where
  left {s : Store} (h : Ready s) : I s s
  left_trans {s s' s'' : Store} (h : I s s') (h' : I s' s'') : I s s''
  nothing {s : Store} (h : Ready s) : Q [] [] s s
  ready {s s' : Store} {backgrounds scenarios : List Value} (h : Ready s) (hleft : I s s')
    (hdone : Q backgrounds scenarios s s') : Ready s'
  trans {s s' s'' : Store} {backgrounds backgrounds' scenarios scenarios' : List Value}
    (h : Ready s) (hdone : Q backgrounds scenarios s s')
    (hnext : Q backgrounds' scenarios' s' s'') :
    Q (backgrounds ++ backgrounds') (scenarios ++ scenarios') s s''
  background {s : Store} (h : Ready s) (node : Value) :
    Ensures (background site (some r) node) s (I s) fun _ s' => Q [node] [] s s'
  outline {s : Store} (h : Ready s) {node : Value}
    (hexamples : (node.partOf "examples").isPresent = true) :
    Ensures (outline site r node) s (I s) fun _ s' => Q [] [node] s s'
  plainScenario {s : Store} (h : Ready s) {node : Value}
    (hexamples : (node.partOf "examples").isPresent = false) :
    Ensures (plainScenario site r node) s (I s) fun _ s' => Q [] [node] s s'

namespace AddsUp

variable {Ready : Store → Prop} {I : Store → Store → Prop}
variable {Q : List Value → List Value → Store → Store → Prop}

theorem scenario (hadds : AddsUp site r Ready I Q) (h : Ready s) (node : Value) :
    Ensures (scenario site (some r) node) s (I s) fun _ s' =>
      Q [] ([node].filter fun n => !n.isExcluded site.excluded) s s' := by
  refine ensures_scenario (hadds.left h) (fun hpassed => ?_) (fun hkept hexamples => ?_)
    fun hkept hexamples => ?_
  · rw [kept_of_excluded hpassed]
    exact hadds.nothing h
  · rw [kept_of_not_excluded hkept]
    exact hadds.outline h hexamples
  · rw [kept_of_not_excluded hkept]
    exact hadds.plainScenario h hexamples

theorem ruleChild (hadds : AddsUp site r Ready I Q) (h : Ready s) (node : Value) :
    Ensures (ruleChild site (some r) node) s (I s) fun _ s' => Q node.ruleBackgrounds
      (node.ruleScenarios.filter fun n => !n.isExcluded site.excluded) s s' := by
  unfold Build.ruleChild ruleBackgrounds ruleScenarios
  refine ensures_bind_check (hadds.left h) fun backgroundNode hbackground => ?_
  rw [partOf_eq hbackground]
  split
  · exact hadds.background h backgroundNode
  · refine ensures_bind_check (hadds.left h) fun scenarioNode hscenario => ?_
    rw [partOf_eq hscenario]
    split
    · exact hadds.scenario h scenarioNode
    · exact .pure (hadds.left h) (hadds.nothing h)

/-- One node after the other, each built as the given action builds it. -/
theorem forM (hadds : AddsUp site r Ready I Q) {build : Value → Build Unit}
    {backgrounds scenarios : Value → List Value} {keep : Value → Bool}
    (hbuild : ∀ {s : Store}, Ready s → ∀ node, Ensures (build node) s (I s) fun _ s' =>
      Q (backgrounds node) ((scenarios node).filter keep) s s')
    (h : Ready s) (nodes : List Value) :
    Ensures (nodes.forM build) s (I s) fun _ s' =>
      Q (nodes.flatMap backgrounds) ((nodes.flatMap scenarios).filter keep) s s' := by
  refine .forM (fun done s' => Q (done.flatMap backgrounds)
    ((done.flatMap scenarios).filter keep) s s') (hadds.left h) (hadds.nothing h) ?_
  intro done node _ s' _ hleft hdone
  refine (hbuild (hadds.ready h hleft hdone) node).weaken (fun _ => hadds.left_trans hleft) ?_
  intro _ s'' _ hnext
  simp only [List.flatMap_append, List.flatMap_singleton, List.filter_append]
  exact hadds.trans h hdone hnext

theorem child (hadds : AddsUp site r Ready I Q) (h : Ready s) (node : Value) :
    Ensures (child site (some r) node) s (I s) fun _ s' => Q node.childBackgrounds
      (node.childScenarios.filter fun n => !n.isExcluded site.excluded) s s' := by
  unfold Build.child childBackgrounds childScenarios
  refine ensures_bind_check (hadds.left h) fun backgroundNode hbackground => ?_
  rw [partOf_eq hbackground]
  split
  · exact hadds.background h backgroundNode
  · refine ensures_bind_check (hadds.left h) fun scenarioNode hscenario => ?_
    rw [partOf_eq hscenario]
    split
    · exact hadds.scenario h scenarioNode
    · refine ensures_bind_check (hadds.left h) fun rule hrule => ?_
      rw [partOf_eq hrule]
      split
      · refine ensures_bind_check (hadds.left h) fun nodes hnodes => ?_
        rw [itemsOf_eq hnodes]
        exact hadds.forM hadds.ruleChild h nodes
      · exact .pure (hadds.left h) (hadds.nothing h)

/-- **The children of a feature come to what their backgrounds and kept scenarios add up to**, in
their order and with those of rules in place. -/
theorem children (hadds : AddsUp site r Ready I Q) (h : Ready s) (nodes : List Value) :
    Ensures (children site (some r) nodes) s (I s) fun _ s' =>
      Q (nodes.flatMap childBackgrounds)
        ((nodes.flatMap childScenarios).filter fun n => !n.isExcluded site.excluded) s s' :=
  hadds.forM hadds.child h nodes

end AddsUp

/-! ## Documents -/

/-- A feature as it comes in from the store: named after its file and still empty. -/
structure ComesIn (site : Site) (s : Store) (f : Feature) : Prop where
  id : f.id = site.file
  namespaceId : f.namespaceId = s.idOf site.nameSpace
  tags : f.tags = []
  background : f.background = none
  scenarios : f.scenarios = []
  totalScenarios : f.totalScenarios = 0

/-- What is done of a document once its feature is placed. -/
def fillPlaced (site : Site) (node : Value) (r : Ref Feature) : Build (Option (Ref Feature)) := do
  declareAll site.file (← check (node.field "tags")) (some (.feature r))
  children site (some r) (← check (node.elementsOf "children"))
  let f ← read r
  f.tags.forM fun tag => change tag fun t =>
    { t with totalScenarios := t.totalScenarios + f.totalScenarios }
  return some r

/-- What is done of a document once its feature has come in. -/
def fillFeature (site : Site) (node : Value) (r : Ref Feature) : Build (Option (Ref Feature)) := do
  place site r
  fillPlaced site node r

/-- A document has no feature, is passed over, or lets its feature come in and fills it. -/
theorem ensures_document {content : Value} {I : Store → Prop}
    {R : Option (Ref Feature) → Store → Prop} (hI : I s) (hnone : R none s)
    (hfill : ∀ node f, content.field "feature" = .ok node →
      (do declaresExcluded site.excluded (← node.field "tags")) = .ok false → ComesIn site s f →
        Ensures (fillFeature site node (s.register f).2) (s.register f).1 I R) :
    Ensures (document site content) s I R := by
  unfold document
  refine ensures_bind_check hI fun node hnode => ?_
  split
  · exact .pure hI hnone
  refine ensures_bind_check hI fun excluded hexcluded => ?_
  cases excluded with
  | true => exact .pure hI hnone
  | false =>
      refine ensures_bind_head hI fun keyword title location description _ => ?_
      refine ensures_bind_check hI fun comments _ => ?_
      rw [ensures_bind_get, ensures_bind_register]
      exact hfill node _ hnode hexcluded ⟨rfl, rfl, rfl, rfl, rfl, rfl⟩

end Build

end StepTrace
