import StepTrace.Proofs.Registry.Invariant

/-!
# The parts of features

A feature is formed if each of its parts has the identifier that its position gives it, whatever is
registered under that (`FeatureFormed`); this alone makes all identifiers different.  In an orderly
registry each part is moreover what is registered under its identifier (`Orderly.parts`).

Identifiers of one owner fall into families, one for each list of the owner, whose labels are all
different (`Among`); an owner is spread out once its families are (`Spread`).
-/

namespace StepTrace

namespace Store

/-! ## Formed parts -/

/-- The record has been given out and has the identifier. -/
structure Formed (s : Store) (e : Entry) (id : String) : Prop where
  has : s.Has e
  idOf : s.idOf e = id

def StepsFormed (s : Store) (owner : String) (steps : List (Ref Step)) : Prop :=
  Numbered (fun i r => s.Formed (.step r) (part owner (stepLabel (i + 1)))) steps

structure ScenarioFormed (s : Store) (r : Ref Scenario) (id : String) : Prop where
  formed : s.Formed (.scenario r) id
  steps : s.StepsFormed id (s.get r).steps

def ExamplesFormed (s : Store) (owner : String) (examples : List (Ref Examples)) : Prop :=
  Numbered (fun i r => s.Formed (.examples r) (part owner (examplesLabel i))) examples

def RowsFormed (s : Store) (owner : String) (rows : List (Ref Scenario)) : Prop :=
  Numbered (fun i r => s.ScenarioFormed r (part owner (rowLabel (i + 1)))) rows

structure OutlineFormed (s : Store) (r : Ref Outline) (id : String) : Prop where
  formed : s.Formed (.outline r) id
  steps : s.StepsFormed id (s.get r).steps
  examples : s.ExamplesFormed id (s.get r).examples
  rows : s.RowsFormed id (s.get r).scenarios

def ContainerFormed (s : Store) (container : Container) (id : String) : Prop :=
  match container with
  | .scenario r => s.ScenarioFormed r id
  | .outline r => s.OutlineFormed r id

/-- All parts of a feature have been given out and have the identifiers of their positions. -/
structure FeatureFormed (s : Store) (r : Ref Feature) (id : String) : Prop where
  formed : s.Formed (.feature r) id
  background : ∀ b, (s.get r).background = some b → s.ScenarioFormed b (part id backgroundLabel)
  containers : Numbered (fun i c => s.ContainerFormed c (part id (scenarioLabel (i + 1))))
    (s.get r).scenarios

variable {s : Store} {owner id feature : String}

theorem Placed.formed {e : Entry} (h : s.Placed e id) : s.Formed e id :=
  ⟨h.has, h.idOf⟩

theorem StepsPlaced.formed {steps : List (Ref Step)} (h : s.StepsPlaced owner steps) :
    s.StepsFormed owner steps :=
  h.mono fun _ _ _ hplaced => hplaced.1.formed

theorem ScenarioPlaced.formed {outline : Option String} {r : Ref Scenario}
    (h : s.ScenarioPlaced feature outline r id) : s.ScenarioFormed r id :=
  ⟨h.placed.formed, h.steps.formed⟩

theorem OutlinePlaced.formed {r : Ref Outline} (h : s.OutlinePlaced feature r id) :
    s.OutlineFormed r id where
  formed := h.placed.formed
  steps := h.steps.formed
  examples := h.examples.mono fun _ _ _ hplaced => hplaced.1.formed
  rows := h.rows.mono fun _ _ _ hplaced => hplaced.formed

theorem ContainerPlaced.formed {container : Container}
    (h : s.ContainerPlaced feature container id) : s.ContainerFormed container id := by
  cases container with
  | scenario r => exact ScenarioPlaced.formed h
  | outline r => exact OutlinePlaced.formed h

theorem FeaturePlaced.formed {r : Ref Feature} (h : s.FeaturePlaced r id) : s.FeatureFormed r id where
  formed := h.placed.formed
  background b hb := (h.background b hb).formed
  containers := h.containers.mono fun _ _ _ hplaced => hplaced.formed

/-! ## Families of identifiers -/

/-- The identifiers at and below the parts of an owner whose labels are in the family. -/
def Among (owner : String) (family : String → Prop) (id : String) : Prop :=
  ∃ label, IsLabel label ∧ family label ∧ Under (part owner label) id

/-- The identifiers of the entries are distinct and in the region. -/
structure Spread (s : Store) (region : String → Prop) (entries : List Entry) : Prop where
  inside : ∀ e ∈ entries, region (s.idOf e)
  nodup : (entries.map s.idOf).Nodup

variable {region region' : String → Prop} {family family' : String → Prop}
  {entries entries' : List Entry}

theorem Among.disjoint (h : Among owner family id) (h' : Among owner family' id)
    (hfamily : ∀ label, family label → ¬ family' label) : False := by
  obtain ⟨label, hlabel, hmem, hid⟩ := h
  obtain ⟨label', hlabel', hmem', hid'⟩ := h'
  have hsame := eq_of_under_part hlabel hlabel' hid hid'
  exact hfamily label hmem (hsame ▸ hmem')

namespace Spread

theorem nil : s.Spread region [] :=
  ⟨nofun, List.nodup_nil⟩

theorem mono (h : s.Spread region entries) (hregion : ∀ id, region id → region' id) :
    s.Spread region' entries :=
  ⟨fun e he => hregion _ (h.inside e he), h.nodup⟩

theorem append (h : s.Spread region entries) (h' : s.Spread region' entries')
    (hdisjoint : ∀ id, region id → ¬ region' id) :
    s.Spread (fun id => region id ∨ region' id) (entries ++ entries') := by
  refine ⟨?_, ?_⟩
  · intro e he
    rcases List.mem_append.mp he with he | he
    · exact Or.inl (h.inside e he)
    · exact Or.inr (h'.inside e he)
  · rw [List.map_append]
    refine List.nodup_append.mpr ⟨h.nodup, h'.nodup, ?_⟩
    intro a ha b hb heq
    obtain ⟨e, he, rfl⟩ := List.mem_map.mp ha
    obtain ⟨e', he', rfl⟩ := List.mem_map.mp hb
    exact hdisjoint _ (h.inside e he) (heq ▸ h'.inside e' he')

/-- Two families of one owner. -/
theorem append_among (h : s.Spread (Among owner family) entries)
    (h' : s.Spread (Among owner family') entries')
    (hfamily : ∀ label, family label → ¬ family' label) :
    s.Spread (Among owner fun label => family label ∨ family' label) (entries ++ entries') := by
  refine (h.append h' fun _ hid hid' => hid.disjoint hid' hfamily).mono ?_
  rintro id (⟨label, hlabel, hmem, hid⟩ | ⟨label, hlabel, hmem, hid⟩)
  · exact ⟨label, hlabel, Or.inl hmem, hid⟩
  · exact ⟨label, hlabel, Or.inr hmem, hid⟩

/-- The owner comes before its parts. -/
theorem cons {e : Entry} (he : s.idOf e = owner) (h : s.Spread (Among owner family) entries) :
    s.Spread (Under owner) (e :: entries) := by
  refine ⟨?_, ?_⟩
  · intro e' he'
    rcases List.mem_cons.mp he' with rfl | he'
    · rw [he]
      exact .refl _
    · obtain ⟨label, hlabel, -, hunder⟩ := h.inside e' he'
      exact hunder.of_part hlabel
  · rw [List.map_cons, List.nodup_cons]
    refine ⟨?_, h.nodup⟩
    intro hmem
    obtain ⟨e', he', heq⟩ := List.mem_map.mp hmem
    obtain ⟨label, -, -, hunder⟩ := h.inside e' he'
    rw [heq, he] at hunder
    exact not_under_part_self _ _ hunder

/-- The elements of a list, each under its number, form a family. -/
theorem numbered {α : Type} {xs : List α} {parts : α → List Entry} {label : Nat → String}
    (hlabel : ∀ i, IsLabel (label i)) (hinjective : ∀ {i j}, label i = label j → i = j)
    (h : Numbered (fun i x => s.Spread (Under (part owner (label i))) (parts x)) xs) :
    s.Spread (Among owner fun l => ∃ i, l = label i) (xs.flatMap parts) := by
  refine ⟨?_, ?_⟩
  · intro e he
    obtain ⟨x, hx, he⟩ := List.mem_flatMap.mp he
    obtain ⟨i, hi⟩ := h.exists_of_mem hx
    exact ⟨label i, hlabel i, ⟨i, rfl⟩, hi.inside e he⟩
  · rw [List.map_flatMap, List.nodup_flatMap]
    constructor
    · intro x hx
      obtain ⟨i, hi⟩ := h.exists_of_mem hx
      exact hi.nodup
    · rw [List.pairwise_iff_getElem]
      intro i j hi hj hlt id hid hid'
      obtain ⟨e, he, rfl⟩ := List.mem_map.mp hid
      obtain ⟨e', he', heq⟩ := List.mem_map.mp hid'
      have hunder := (h i _ (List.getElem?_eq_getElem hi)).inside e he
      have hunder' := (h j _ (List.getElem?_eq_getElem hj)).inside e' he'
      rw [heq] at hunder'
      have := hinjective (eq_of_under_part (hlabel i) (hlabel j) hunder hunder')
      omega

/-- Single entries, each under its number, form a family. -/
theorem numbered_map {α : Type} {xs : List α} {entry : α → Entry} {label : Nat → String}
    (hlabel : ∀ i, IsLabel (label i)) (hinjective : ∀ {i j}, label i = label j → i = j)
    (h : Numbered (fun i x => s.Formed (entry x) (part owner (label i))) xs) :
    s.Spread (Among owner fun l => ∃ i, l = label i) (xs.map entry) := by
  rw [List.map_eq_flatMap]
  refine numbered hlabel hinjective (h.mono fun i x _ hformed => ?_)
  have hnone : s.Spread (Among (part owner (label i)) fun _ => False) [] := nil
  exact cons hformed.idOf hnone

end Spread

/-! ## Formed parts are spread out -/

theorem StepsFormed.spread {steps : List (Ref Step)} (h : s.StepsFormed owner steps) :
    s.Spread (Among owner fun l => ∃ i, l = stepLabel (i + 1)) (steps.map .step) :=
  .numbered_map (fun _ => isLabel_step _) (fun heq => Nat.succ.inj (stepLabel_injective heq)) h

theorem ExamplesFormed.spread {examples : List (Ref Examples)}
    (h : s.ExamplesFormed owner examples) :
    s.Spread (Among owner fun l => ∃ i, l = examplesLabel i) (examples.map .examples) :=
  .numbered_map isLabel_examples examplesLabel_injective h

theorem ScenarioFormed.spread {r : Ref Scenario} (h : s.ScenarioFormed r id) :
    s.Spread (Under id) (s.scenarioParts r) :=
  .cons h.formed.idOf h.steps.spread

theorem RowsFormed.spread {rows : List (Ref Scenario)} (h : s.RowsFormed owner rows) :
    s.Spread (Among owner fun l => ∃ i, l = rowLabel (i + 1)) (rows.flatMap s.scenarioParts) :=
  .numbered (fun _ => isLabel_row _) (fun heq => Nat.succ.inj (rowLabel_injective heq))
    (h.mono fun _ _ _ hformed => hformed.spread)

theorem OutlineFormed.spread {r : Ref Outline} (h : s.OutlineFormed r id) :
    s.Spread (Under id) (s.outlineParts r) := by
  have hlater := h.examples.spread.append_among h.rows.spread (by
    rintro _ ⟨i, rfl⟩ ⟨j, heq⟩
    exact examplesLabel_ne_rowLabel _ _ heq)
  refine .cons h.formed.idOf (h.steps.spread.append_among hlater ?_)
  rintro _ ⟨i, rfl⟩ (⟨j, heq⟩ | ⟨j, heq⟩)
  · exact stepLabel_ne_examplesLabel _ _ heq
  · exact stepLabel_ne_rowLabel _ _ heq

theorem ContainerFormed.spread {container : Container} (h : s.ContainerFormed container id) :
    s.Spread (Under id) (s.containerParts container) := by
  cases container with
  | scenario r => exact ScenarioFormed.spread h
  | outline r => exact OutlineFormed.spread h

theorem FeatureFormed.spread {r : Ref Feature} (h : s.FeatureFormed r id) :
    s.Spread (Under id) (s.featureParts r) := by
  have hbackground : s.Spread (Among id (· = backgroundLabel))
      ((s.get r).background.toList.flatMap s.scenarioParts) := by
    cases hb : (s.get r).background with
    | none => exact .nil
    | some b =>
        rw [Option.toList_some, List.flatMap_singleton]
        refine (h.background b hb).spread.mono fun id hid => ?_
        exact ⟨backgroundLabel, isLabel_background, rfl, hid⟩
  have hcontainers : s.Spread (Among id fun l => ∃ i, l = scenarioLabel (i + 1))
      ((s.get r).scenarios.flatMap s.containerParts) :=
    .numbered (fun _ => isLabel_scenario _) (fun heq => Nat.succ.inj (scenarioLabel_injective heq))
      (h.containers.mono fun _ _ _ hformed => hformed.spread)
  refine .cons h.formed.idOf (hbackground.append_among hcontainers ?_)
  rintro _ rfl ⟨i, heq⟩
  exact backgroundLabel_ne_scenarioLabel _ heq

/-! ## Placed parts are registered -/

theorem ScenarioPlaced.placed_parts {outline : Option String} {r : Ref Scenario}
    (h : s.ScenarioPlaced feature outline r id) : ∀ e ∈ s.scenarioParts r, s.Placed e (s.idOf e) := by
  intro e he
  rcases mem_scenarioParts.mp he with rfl | ⟨x, hx, rfl⟩
  · rw [h.placed.idOf]
    exact h.placed
  · obtain ⟨i, hi, -⟩ := h.steps.exists_of_mem hx
    rw [hi.idOf]
    exact hi

theorem OutlinePlaced.placed_parts {r : Ref Outline} (h : s.OutlinePlaced feature r id) :
    ∀ e ∈ s.outlineParts r, s.Placed e (s.idOf e) := by
  intro e he
  rcases mem_outlineParts.mp he with rfl | ⟨x, hx, rfl⟩ | ⟨x, hx, rfl⟩ | ⟨x, hx, he⟩
  · rw [h.placed.idOf]
    exact h.placed
  · obtain ⟨i, hi, -⟩ := h.steps.exists_of_mem hx
    rw [hi.idOf]
    exact hi
  · obtain ⟨i, hi, -⟩ := h.examples.exists_of_mem hx
    rw [hi.idOf]
    exact hi
  · obtain ⟨i, hi⟩ := h.rows.exists_of_mem hx
    exact hi.placed_parts e he

theorem FeaturePlaced.placed_parts {r : Ref Feature} (h : s.FeaturePlaced r id) :
    ∀ e ∈ s.featureParts r, s.Placed e (s.idOf e) := by
  intro e he
  rcases mem_featureParts.mp he with rfl | ⟨b, hb, he⟩ | ⟨c, hc, he⟩
  · rw [h.placed.idOf]
    exact h.placed
  · exact (h.background b hb).placed_parts e he
  · obtain ⟨i, hi⟩ := h.containers.exists_of_mem hc
    cases c with
    | scenario x => exact ScenarioPlaced.placed_parts hi e he
    | outline x => exact OutlinePlaced.placed_parts hi e he

/-! ## Scenarios that run -/

/-- Background, plain scenarios and rows are formed. -/
theorem FeatureFormed.stepContainer {r : Ref Feature} (h : s.FeatureFormed r id)
    {c : Ref Scenario} (hc : c ∈ s.stepContainers (s.get r)) : ∃ cid, s.ScenarioFormed c cid := by
  rcases List.mem_append.mp hc with hc | hc
  · exact ⟨_, h.background c (Option.mem_toList.mp hc)⟩
  · obtain ⟨container, hmem, hc⟩ := List.mem_flatMap.mp hc
    obtain ⟨i, hi⟩ := h.containers.exists_of_mem hmem
    cases container with
    | scenario x =>
        rw [List.mem_singleton.mp hc]
        exact ⟨_, hi⟩
    | outline x =>
        obtain ⟨j, hj⟩ := (show s.OutlineFormed x _ from hi).rows.exists_of_mem hc
        exact ⟨_, hj⟩

/-- Their steps are among the parts of the feature, in the same order. -/
theorem steps_sublist_featureParts (s : Store) (r : Ref Feature) :
    (((s.stepContainers (s.get r)).flatMap fun c => (s.get c).steps).map .step).Sublist
      (s.featureParts r) := by
  have hscenario : ∀ c : Ref Scenario, ((s.get c).steps.map Entry.step).Sublist
      (s.scenarioParts c) := fun c => List.sublist_cons_self ..
  have hscenarios : ∀ cs : List (Ref Scenario), ((cs.flatMap fun c => (s.get c).steps).map
      Entry.step).Sublist (cs.flatMap s.scenarioParts) := by
    intro cs
    induction cs with
    | nil => exact List.Sublist.refl _
    | cons c cs ih =>
        rw [List.flatMap_cons, List.map_append, List.flatMap_cons]
        exact (hscenario c).append ih
  have hcontainers : ∀ cs : List Container, (((cs.flatMap fun
      | .scenario c => [c]
      | .outline o => (s.get o).scenarios).flatMap fun c => (s.get c).steps).map
        Entry.step).Sublist (cs.flatMap s.containerParts) := by
    intro cs
    induction cs with
    | nil => exact List.Sublist.refl _
    | cons c cs ih =>
        rw [List.flatMap_cons, List.flatMap_append, List.map_append, List.flatMap_cons]
        refine List.Sublist.append ?_ ih
        cases c with
        | scenario c =>
            rw [List.flatMap_singleton]
            exact hscenario c
        | outline o =>
            refine (hscenarios (s.get o).scenarios).trans (List.Sublist.cons _ ?_)
            exact (List.sublist_append_right _ _).trans (List.sublist_append_right _ _)
  rw [stepContainers, List.flatMap_append, List.map_append, featureParts]
  exact .cons _ ((hscenarios _).append (hcontainers _))

/-! ## All features -/

theorem mem_allFeatures (hc : s.catalog.Consistent) {r : Ref Feature} :
    r ∈ s.allFeatures ↔ ∃ id, s.catalog.find? id = some (.feature r) := by
  rw [allFeatures]
  exact hc.mem_filterMap_ofKind .feature (fun e _ => by cases e <;> simp) fun _ => rfl

/-- The identifiers of a kind are those of what is registered of the kind, in the same order. -/
theorem map_idOf_ofKind (hc : s.catalog.Consistent) (hlabelled : s.Labelled) (kind : Kind) :
    (s.catalog.ofKind kind).map s.idOf = (s.catalog.index kind).keys := by
  rw [Catalog.ofKind, OrderedMap.values, List.map_map, OrderedMap.keys]
  apply List.map_congr_left
  intro entry hentry
  have hfind := OrderedMap.find?_eq_some_of_mem (hc.nodup_index kind) hentry
  exact (hlabelled (hc.index_find?.mp hfind).1).idOf

theorem nodup_ofKind (hc : s.catalog.Consistent) (hlabelled : s.Labelled) (kind : Kind) :
    (s.catalog.ofKind kind).Nodup := by
  refine List.Nodup.of_map s.idOf ?_
  rw [map_idOf_ofKind hc hlabelled]
  exact hc.nodup_index kind

theorem nodup_allFeatures (hc : s.catalog.Consistent) (hlabelled : s.Labelled) :
    (s.allFeatures.map fun r => s.idOf (.feature r)).Nodup := by
  have hall : (s.allFeatures.map fun r => s.idOf (.feature r)) =
      (s.catalog.ofKind .feature).map s.idOf := by
    have hkind : ∀ e ∈ s.catalog.ofKind .feature, ∃ r, e = .feature r := by
      intro e he
      obtain ⟨id, -, hkind⟩ := hc.mem_ofKind.mp he
      cases e <;> cases hkind
      exact ⟨_, rfl⟩
    rw [allFeatures, List.map_filterMap]
    generalize s.catalog.ofKind .feature = entries at hkind
    induction entries with
    | nil => rfl
    | cons e entries ih =>
        obtain ⟨r, rfl⟩ := hkind e (List.mem_cons_self ..)
        rw [List.filterMap_cons, List.map_cons, ih fun e he => hkind e (List.mem_cons_of_mem _ he)]
        rfl
  rw [hall, map_idOf_ofKind hc hlabelled]
  exact hc.nodup_index .feature

/-- **The parts of all features have distinct identifiers.** -/
theorem spread_allFeatures (hc : s.catalog.Consistent) (hlabelled : s.Labelled)
    (hformed : ∀ {id r}, s.catalog.find? id = some (.feature r) →
      FeatureEnding id ∧ s.FeatureFormed r id) :
    s.Spread (fun _ => True) (s.allFeatures.flatMap s.featureParts) := by
  have hspread : ∀ r ∈ s.allFeatures, FeatureEnding (s.idOf (.feature r)) ∧
      s.Spread (Under (s.idOf (.feature r))) (s.featureParts r) := by
    intro r hr
    obtain ⟨id, hid⟩ := (mem_allFeatures hc).mp hr
    obtain ⟨hending, hr⟩ := hformed hid
    rw [hr.formed.idOf]
    exact ⟨hending, hr.spread⟩
  refine ⟨fun _ _ => trivial, ?_⟩
  rw [List.map_flatMap, List.nodup_flatMap]
  refine ⟨fun r hr => (hspread r hr).2.nodup, ?_⟩
  have hdistinct := nodup_allFeatures hc hlabelled
  rw [List.Nodup, List.pairwise_map] at hdistinct
  refine hdistinct.imp_of_mem ?_
  intro r r' hr hr' hne id hid hid'
  obtain ⟨e, he, rfl⟩ := List.mem_map.mp hid
  obtain ⟨e', he', heq⟩ := List.mem_map.mp hid'
  have hunder := (hspread r hr).2.inside e he
  have hunder' := (hspread r' hr').2.inside e' he'
  rw [heq] at hunder'
  exact hne ((hspread r hr).1.eq_of_under (hspread r' hr').1 hunder hunder')

/-- In an orderly registry they are moreover registered under these. -/
theorem Orderly.parts {files : String → Prop} {linked : Prop} (h : Orderly files linked s)
    (hfiles : ∀ file, files file → FeatureFile file) :
    (∀ e ∈ s.allFeatures.flatMap s.featureParts, s.Placed e (s.idOf e)) ∧
      ((s.allFeatures.flatMap s.featureParts).map s.idOf).Nodup := by
  refine ⟨?_, (spread_allFeatures h.consistent h.labelled fun hr =>
    ⟨(hfiles _ (h.fits hr)).ending, (h.placed hr).formed⟩).nodup⟩
  intro e he
  obtain ⟨r, hr, he⟩ := List.mem_flatMap.mp he
  obtain ⟨id, hid⟩ := (mem_allFeatures h.consistent).mp hr
  exact (h.placed hid).placed_parts e he

end Store

end StepTrace
