import StepTrace.Proofs.View.Settled

/-!
# The graph and what records know of each other

The graph is drawn forwards, from features to what they hold and from records to what they refer to.
Definitions, transforms and tags know backwards what refers to them, and parts what holds them.  After
a batch and a pass the graph says the same as these (`LinkGraph.Mirrors`,
`Batch.build_graph_mirrors`): the steps of a target are those with an edge to it, there are as many
edges to definitions as the pass has reported linked steps, tags have edges from their owners, and a
part is held by what it names.
-/

namespace StepTrace

open Store

namespace LinkGraph

/-- What a node is contained in. -/
def holders (g : LinkGraph) (id : String) : List String :=
  (g.edges.filter fun x => x.target = id ∧ x.relation = .contains).map (·.source)

/-- How many edges have the relation. -/
def count (g : LinkGraph) (relation : Relation) : Nat :=
  (g.edges.filter fun x => x.relation = relation).length

/-- The graph says what records know of each other backwards. -/
structure Mirrors (g : LinkGraph) (s : Store) (report : LinkReport) : Prop where
  /-- The nodes are what is depicted, and what is depicted is registered. -/
  nodes : g.nodes.keys.Perm (s.depicted.map s.idOf)
  registered : ∀ e ∈ s.depicted, s.catalog.find? (s.idOf e) = some e
  /-- The steps with an edge to a target are those that it knows. -/
  definition : ∀ d ∈ s.allDefinitions, g.stepsImplementedBy (s.get d).id =
    (s.get d).steps.mergeSort fun a b => decide (a ≤ b)
  transform : ∀ t ∈ s.allTransforms, g.stepsImplementedBy (s.get t).id =
    (s.get t).steps.mergeSort fun a b => decide (a ≤ b)
  /-- Each linked step of the report has one edge to a definition. -/
  implementedBy : g.count .implementedBy = report.linkedSteps.length
  transformedBy : g.count .transformedBy =
    (s.allTransforms.map fun t => (s.get t).steps.length).sum
  /-- Tags have edges from their owners. -/
  tagged : ∀ source target, ⟨source, target, .tagged⟩ ∈ g.edges ↔
    ∃ t ∈ s.allTags, (s.get t).id = target ∧ source ∈ (s.get t).owners
  /-- A part of a feature is contained in what it names as its owner, and in nothing else. -/
  part : ∀ e ∈ s.depicted, e.kind.IsPart → ∃ owner holder, s.ownerOf? e = some owner ∧
    s.catalog.find? owner = some holder ∧ g.holders (s.idOf e) = [owner]
  /-- Features, targets and tags are contained in nothing. -/
  whole : ∀ e ∈ s.depicted, ¬ e.kind.IsPart → g.holders (s.idOf e) = []

end LinkGraph

namespace Store

variable {s : Store}

/-! ## The steps of a target -/

private theorem mergeSort_eq_of_perm {xs ys : List String} (h : xs.Perm ys) :
    (xs.mergeSort fun a b => decide (a ≤ b)) = ys.mergeSort fun a b => decide (a ≤ b) := by
  have hsorted : ∀ zs : List String,
      (zs.mergeSort fun a b => decide (a ≤ b)).Pairwise fun a b => decide (a ≤ b) = true :=
    List.pairwise_mergeSort
      (fun a b c hab hbc => decide_eq_true
        (String.le_trans (of_decide_eq_true hab) (of_decide_eq_true hbc)))
      fun a b => by simpa using String.le_total a b
  refine List.Perm.eq_of_pairwise (fun a b _ _ hab hba => ?_) (hsorted xs) (hsorted ys)
    ((List.mergeSort_perm ..).trans (h.trans (List.mergeSort_perm ..).symm))
  exact String.le_antisymm (of_decide_eq_true hab) (of_decide_eq_true hba)

/-! ## Edges by relation -/

/-- What is depicted, by the relation of the edges that lead to it. -/
theorem filter_depicted (relation : Relation) :
    s.depicted.filter (fun e => e.relation = relation) =
      (if Relation.implementedBy = relation then s.allDefinitions.map .definition else []) ++
      ((if Relation.transformedBy = relation then s.allTransforms.map .transform else []) ++
      ((if Relation.tagged = relation then s.allTags.map .tag else []) ++
      (if Relation.contains = relation then s.allFeatures.flatMap s.featureParts else []))) := by
  have hsame {es : List Entry} {r : Relation} (hes : ∀ e ∈ es, e.relation = r) :
      es.filter (fun e => e.relation = relation) = if r = relation then es else [] := by
    split
    · exact List.filter_eq_self.mpr fun e he => decide_eq_true ((hes e he).trans ‹_›)
    · exact List.filter_eq_nil_iff.mpr fun e he heq =>
        ‹¬ r = relation› ((hes e he).symm.trans (of_decide_eq_true heq))
  have hparts : ∀ e ∈ s.allFeatures.flatMap s.featureParts, e.relation = .contains :=
    fun e he => (referrers_eq_nil (s := s) (kind_of_mem_parts he)).1
  rw [depicted, List.filter_append, List.filter_append, List.filter_append, hsame hparts,
    hsame (r := .implementedBy), hsame (r := .transformedBy), hsame (r := .tagged)]
  all_goals
    intro e he
    obtain ⟨_, -, rfl⟩ := List.mem_map.mp he
    rfl

namespace Coherent

variable (h : s.Coherent)
include h

theorem keys_perm : (LinkGraph.ofStore s).nodes.keys.Perm (s.depicted.map s.idOf) := by
  have hperm := h.nodes_perm.map Prod.fst
  rwa [List.map_map] at hperm

theorem nodesMeant {e : Entry} (he : e ∈ s.depicted) :
    (LinkGraph.ofStore s).nodesMeant (s.idOf e) = [s.idOf e] :=
  if_pos (OrderedMap.contains_iff.mpr (h.keys_perm.mem_iff.mpr (List.mem_map_of_mem he)))

/-- The edges that lead to a record and satisfy a test. -/
theorem filter_into {e : Entry} (he : e ∈ s.depicted) (p : Edge → Bool) :
    ((LinkGraph.ofStore s).edges.filter fun x => x.target = s.idOf e ∧ p x).Perm
      ((s.owning e ++ s.referred e).filter p) := by
  refine .trans (.of_eq ?_) ((h.edges_into he).filter p)
  rw [List.filter_filter]
  refine List.filter_congr fun x _ => ?_
  rw [Bool.decide_and, Bool.and_comm, Bool.decide_eq_true]

/-- **The steps of a target are those with an edge to it.** -/
theorem stepsImplementedBy {e : Entry} (he : e ∈ s.depicted) (hkind : e.kind.IsTarget) :
    (LinkGraph.ofStore s).stepsImplementedBy (s.idOf e) =
      (s.referrers e).mergeSort fun a b => decide (a ≤ b) := by
  have howning : s.owning e = [] := by
    cases e <;> first | rfl | cases hkind
  have hrelation : e.relation = .implementedBy ∨ e.relation = .transformedBy := by
    cases e <;> first | exact Or.inl rfl | exact Or.inr rfl | cases hkind
  have hfilter : (s.referred e).filter (fun x =>
      decide (x.relation = .implementedBy ∨ x.relation = .transformedBy)) = s.referred e := by
    refine List.filter_eq_self.mpr fun x hx => ?_
    obtain ⟨id, -, rfl⟩ := List.mem_map.mp hx
    exact decide_eq_true hrelation
  have hperm := (h.filter_into he fun x =>
    decide (x.relation = .implementedBy ∨ x.relation = .transformedBy)).map Edge.source
  rw [howning, List.nil_append, hfilter, referred, List.map_map] at hperm
  refine mergeSort_eq_of_perm ?_
  rw [h.nodesMeant he]
  simpa only [List.mem_singleton, decide_eq_true_eq, Function.comp_def, List.map_id'] using hperm

/-! ## What holds a record -/

theorem holders {e : Entry} (he : e ∈ s.depicted) :
    (LinkGraph.ofStore s).holders (s.idOf e) = (s.ownerOf? e).toList := by
  have hfilter : (s.owning e ++ s.referred e).filter (fun x => decide (x.relation = .contains)) =
      s.owning e := by
    have howning : ∀ x ∈ s.owning e, x.relation = .contains := by
      intro x hx
      obtain ⟨_, -, rfl⟩ := List.mem_map.mp hx
      rfl
    have hreferred : ∀ x ∈ s.referred e, x.relation ≠ .contains := by
      intro x hx
      obtain ⟨id, hid, rfl⟩ := List.mem_map.mp hx
      cases e <;> first | cases hid | exact nofun
    rw [List.filter_append, List.filter_eq_self.mpr fun x hx => decide_eq_true (howning x hx),
      List.filter_eq_nil_iff.mpr fun x hx hrelation =>
        hreferred x hx (of_decide_eq_true hrelation), List.append_nil]
  have hperm := (h.filter_into he fun x => decide (x.relation = .contains)).map Edge.source
  rw [hfilter, owning, List.map_map] at hperm
  simp only [decide_eq_true_eq] at hperm
  unfold LinkGraph.holders
  cases howner : s.ownerOf? e with
  | none =>
      rw [howner] at hperm
      exact List.perm_nil.mp hperm
  | some owner =>
      rw [howner] at hperm
      exact List.perm_singleton.mp hperm

/-! ## Counts -/

/-- The edges of a relation are those to what has the relation. -/
theorem edges_of_relation (relation : Relation) :
    ((LinkGraph.ofStore s).edges.filter fun x => x.relation = relation).Perm
      ((s.depicted.filter fun e => e.relation = relation).flatMap fun e =>
        s.owning e ++ s.referred e) := by
  have hedge : ∀ e, ∀ x ∈ s.owning e ++ s.referred e, x.relation = e.relation := by
    intro e x hx
    rcases List.mem_append.mp hx with hx | hx
    · obtain ⟨owner, howner, rfl⟩ := List.mem_map.mp hx
      have hpart := isPart_of_ownerOf? (Option.isSome_of_mem (Option.mem_toList.mp howner))
      exact (referrers_eq_nil (s := s) (Or.inr hpart)).1.symm
    · obtain ⟨id, -, rfl⟩ := List.mem_map.mp hx
      rfl
  refine (h.edges_perm_referred.filter _).trans (.of_eq ?_)
  clear h
  induction s.depicted with
  | nil => rfl
  | cons e es ih =>
      rw [List.flatMap_cons, List.filter_append, ih, List.filter_cons]
      by_cases hrelation : e.relation = relation
      · rw [List.filter_eq_self.mpr fun x hx => decide_eq_true ((hedge e x hx).trans hrelation),
          if_pos (decide_eq_true hrelation), List.flatMap_cons]
      · rw [List.filter_eq_nil_iff.mpr fun x hx heq =>
            hrelation ((hedge e x hx).symm.trans (of_decide_eq_true heq)),
          if_neg (by simpa using hrelation), List.nil_append]

/-- Counting the edges to definitions, to transforms or to tags. -/
theorem count_eq {relation : Relation} {α : Type} (entry : α → Entry) {xs : List α}
    (hxs : s.depicted.filter (fun e => e.relation = relation) = xs.map entry)
    (howner : ∀ x ∈ xs, s.ownerOf? (entry x) = none) :
    (LinkGraph.ofStore s).count relation = (xs.map fun x => (s.referrers (entry x)).length).sum := by
  rw [LinkGraph.count, (h.edges_of_relation relation).length_eq, hxs, List.flatMap_map,
    List.length_flatMap]
  refine congrArg List.sum (List.map_congr_left fun x hx => ?_)
  rw [owning, howner x hx, referred]
  exact List.length_map _

/-- There are as many edges to definitions as they know steps. -/
theorem count_implementedBy : (LinkGraph.ofStore s).count .implementedBy =
    (s.allDefinitions.map fun d => (s.get d).steps.length).sum := by
  refine h.count_eq .definition ?_ fun _ _ => rfl
  rw [filter_depicted]
  simp

theorem count_transformedBy : (LinkGraph.ofStore s).count .transformedBy =
    (s.allTransforms.map fun t => (s.get t).steps.length).sum := by
  refine h.count_eq .transform ?_ fun _ _ => rfl
  rw [filter_depicted]
  simp

/-- **Tags have edges from their owners.** -/
theorem mem_edges_tagged (source target : String) :
    ⟨source, target, .tagged⟩ ∈ (LinkGraph.ofStore s).edges ↔
      ∃ t ∈ s.allTags, (s.get t).id = target ∧ source ∈ (s.get t).owners := by
  have hperm := h.edges_of_relation .tagged
  rw [filter_depicted] at hperm
  have hmem := hperm.mem_iff (a := ⟨source, target, .tagged⟩)
  simp only [List.mem_filter, decide_true, and_true] at hmem
  rw [hmem]
  simp only [reduceCtorEq, if_false, if_true, List.nil_append, List.append_nil, List.flatMap_map,
    List.mem_flatMap]
  refine exists_congr fun t => and_congr_right fun _ => ?_
  constructor
  · intro hx
    obtain ⟨owner, howner, heq⟩ := List.mem_map.mp hx
    cases heq
    exact ⟨rfl, howner⟩
  · rintro ⟨rfl, howner⟩
    exact List.mem_append_right _ (List.mem_map.mpr ⟨source, howner, rfl⟩)

end Coherent

/-- The definitions know as many steps as there are steps with a definition. -/
theorem LinkedFor.sum_length {done : List (Ref Step)} (h : LinkedFor done s)
    (hnodup : s.allDefinitions.Nodup) :
    (s.allDefinitions.map fun d => (s.get d).steps.length).sum =
      (done.filter fun x => (s.get x).definition.isSome).length := by
  have hkeys : (s.allDefinitions.map some).Nodup := hnodup.map fun _ _ => Option.some.inj
  have hdefined : ∀ x ∈ done.filter fun x => (s.get x).definition.isSome,
      (s.get x).definition ∈ s.allDefinitions.map some := by
    intro x hx
    obtain ⟨hmem, hsome⟩ := List.mem_filter.mp hx
    obtain ⟨d, hd⟩ := Option.isSome_iff_exists.mp hsome
    exact List.mem_map.mpr ⟨d, (h.definition x (h.registered x hmem) d hd).2, hd.symm⟩
  have hperm := LinkGraph.flatMap_filter_perm (fun x : Ref Step => (s.get x).definition) hkeys hdefined
  rw [← hperm.length_eq, List.flatMap_map, List.length_flatMap]
  refine congrArg List.sum (List.map_congr_left fun d hd => ?_)
  rw [h.ofDefinition d hd, List.length_map, List.filter_filter]
  refine congrArg List.length (List.filter_congr fun x _ => ?_)
  by_cases hx : (s.get x).definition = some d
  · simp [hx]
  · simp [hx]

/-- **The graph of a coherent registry says what its records know.** -/
theorem Coherent.mirrors {done : List (Ref Step)} {report : LinkReport} (h : s.Coherent)
    (hlinks : LinkedFor done s)
    (hreport : report.linkedSteps =
      (done.filter fun x => (s.get x).definition.isSome).map fun x => (s.get x).id) :
    (LinkGraph.ofStore s).Mirrors s report where
  nodes := h.keys_perm
  registered e he := (h.placed e he).find?
  definition d hd := h.stepsImplementedBy (e := .definition d)
    (List.mem_append_left _ (List.mem_map_of_mem hd)) trivial
  transform t ht := h.stepsImplementedBy (e := .transform t)
    (List.mem_append_right _ (List.mem_append_left _ (List.mem_map_of_mem ht))) trivial
  implementedBy := by
    have hnodup : s.allDefinitions.Nodup :=
      List.Nodup.of_map Entry.definition (List.nodup_append'.mp h.nodup).1
    rw [h.count_implementedBy, hlinks.sum_length hnodup, hreport, List.length_map]
  transformedBy := h.count_transformedBy
  tagged := h.mem_edges_tagged
  part e he hpart := by
    obtain ⟨owner, howner⟩ : ∃ owner, s.ownerOf? e = some owner := by
      cases e <;> first | exact ⟨_, rfl⟩ | cases hpart
    obtain ⟨holder, hholder, rfl⟩ := h.owner_mem he howner
    exact ⟨_, holder, howner, (h.placed holder hholder).find?, by rw [h.holders he, howner]; rfl⟩
  whole e he hpart := by
    rw [h.holders he]
    cases howner : s.ownerOf? e with
    | none => rfl
    | some owner => exact absurd (isPart_of_ownerOf? (Option.isSome_of_mem howner)) hpart

end Store

namespace Batch

/-- **After a batch and a pass the graph says what records know of each other**, whatever was passed
over and wherever the pass has failed. -/
theorem build_graph_mirrors {tree : FileTree} {settings : Settings} {base : Option Path}
    {sources : List Source} {contents : List (Option Value)} {warnings : List Warning}
    {batch : Batch} {w : Work} (hreads : List.Forall₂ Source.Reads sources contents)
    (hplain : ∀ source ∈ sources, PlainPath (knownAs base source.path))
    (hdistinct : (sources.map fun source => (knownAs base source.path).toString).Nodup)
    (hrun : (build tree settings base sources).run { store := {}, warnings } = (.ok batch, w))
    {targets : List Target} (hfree : ∀ target ∈ targets, w.store.catalog.find? target.id = none) :
    ∃ report v, LinkingPass.linkAll.run { w with store := w.store.registerTargets targets } =
        (.ok report, v) ∧
      (LinkGraph.ofStore v.store).Mirrors v.store report := by
  obtain ⟨report, v, done, hlink, hcoherent, hlinked, hreport⟩ :=
    build_coherent hreads hplain hdistinct hrun hfree
  exact ⟨report, v, hlink, hcoherent.mirrors hlinked hreport⟩

private def hallTags (names : List String) : Value :=
  .list (names.map fun name => .ofFields [("name", .text name)])

private def hallStep (text : Value) : Value :=
  .ofFields [("keyword", .text "Given "), ("text", text)]

private def hallRow (cells : List String) : Value :=
  .ofFields [("cells", .list (cells.map fun cell => .ofFields [("value", .text cell)]))]

/-- A background, a scenario, and an outline with two rows. -/
private def talk : Value :=
  .ofFields [("feature", .ofFields [("tags", hallTags ["@open"]), ("children", .list [
    .ofFields [("background", .ofFields [("steps", .list [hallStep (.text "a hall with 30 seats")])])],
    .ofFields [("scenario", .ofFields [("tags", hallTags ["@late", "@open"]),
      ("steps", .list [hallStep (.text "it rains"), hallStep (.text "2 guests come")])])],
    .ofFields [("scenario", .ofFields [("steps", .list [hallStep (.text "<count> guests come")]),
      ("examples", .list [.ofFields [("tags", hallTags ["@rows"]), ("tableHeader", hallRow ["count"]),
        ("tableBody", .list [hallRow ["4"], hallRow ["5"]])]])])]])])]

/-- A scenario whose second step has no text. -/
private def mute : Value :=
  .ofFields [("feature", .ofFields [("children", .list [.ofFields [("scenario", .ofFields [
    ("steps", .list [hallStep (.text "1 guests come"), hallStep (.int 7),
      hallStep (.text "2 guests come")])])]])])]

private def hall : List Source :=
  [⟨.ofString "hall/talk.feature", pure (some talk)⟩, ⟨.ofString "hall/torn.feature", pure none⟩,
    ⟨.ofString "mute.feature", pure (some mute)⟩]

private def hallTargets : List Target :=
  [.definition { id := "d", keyword := "Given", pattern := .text "a hall with (.*) seats" },
    .definition { id := "e", keyword := "Given", pattern := .text "(.*) guests come" },
    .transform { id := "t", keyword := "Transform", pattern := .text "^[0-9]+$" }]

private def buildHall : Except Fault Batch × Work :=
  (build { workingDirectory := .ofString "/" } {} none hall).run { store := {} }

private def linkHall : Except Fault LinkReport × Work :=
  LinkingPass.linkAll.run
    { buildHall.2 with store := buildHall.2.store.registerTargets hallTargets }

/-- Five steps are linked, in two features of which one fails. -/
theorem build_graph_mirrors_hall : ∃ report v, linkHall = (.ok report, v) ∧
    report.linkedSteps.length = 5 ∧ report.failedFeatures = ["mute.feature"] ∧
    (LinkGraph.ofStore v.store).Mirrors v.store report := by
  have hpure (path : Path) (content : Option Value) :
      Source.Reads ⟨path, pure content⟩ content := by
    rintro w c w' ⟨⟩
    exact ⟨rfl, rfl⟩
  have hreads : List.Forall₂ Source.Reads hall _ :=
    .cons (hpure _ _) (.cons (hpure _ _) (.cons (hpure _ _) .nil))
  have hplain : ∀ source ∈ hall, PlainPath (knownAs none source.path) := by
    have hknown : hall.map (fun source => knownAs none source.path) = hall.map Source.path := by
      decide +kernel
    intro source hsource
    rw [List.map_inj_left.mp hknown source hsource]
    simp only [hall, List.mem_cons, List.not_mem_nil, or_false] at hsource
    rcases hsource with rfl | rfl | rfl
    all_goals exact plainPath_ofString (by decide) (by decide)
  have hbuilt : buildHall.1.isOk := by decide +kernel
  have hfree : ∀ target ∈ hallTargets, buildHall.2.store.catalog.find? target.id = none := by
    decide +kernel
  have hlinked : linkHall.1.toOption.map (fun report => (report.linkedSteps.length,
      report.failedFeatures)) = some (5, ["mute.feature"]) := by decide +kernel
  have hmirrors (batch : Batch) (w : Work)
      (hrun : (build { workingDirectory := .ofString "/" } {} none hall).run { store := {} } =
        (.ok batch, w)) (hfree : ∀ target ∈ hallTargets, w.store.catalog.find? target.id = none) :=
    build_graph_mirrors hreads hplain (by decide +kernel) hrun hfree
  unfold linkHall at hlinked ⊢
  unfold buildHall at hbuilt hfree hlinked ⊢
  generalize (build { workingDirectory := .ofString "/" } {} none hall).run { store := {} } = built
    at hbuilt hfree hlinked hmirrors
  obtain ⟨fault | batch, w⟩ := built
  · cases hbuilt
  · obtain ⟨report, v, hlink, hgraph⟩ := hmirrors batch w rfl hfree
    rw [hlink] at hlinked
    obtain ⟨hcount, hfailed⟩ := Prod.ext_iff.mp (Option.some.inj hlinked)
    exact ⟨report, v, hlink, hcount, hfailed, hgraph⟩

end Batch

end StepTrace
