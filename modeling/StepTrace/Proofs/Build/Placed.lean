import StepTrace.Assembly.Feature
import StepTrace.Proofs.Store.Growth

/-!
# Where the parts of a feature stand

Every part of a feature is registered under the identifier that its position gives it: the `n`-th
container of `a.feature` under `a.feature:scenario_n`, its `m`-th step under
`a.feature:scenario_n:step_m`, and so on, and it names its owner.  `FeaturePlaced` says this of a
whole feature; the other predicates say it of its parts.

What is placed stays placed while the store grows elsewhere: the identifiers of a part all lie under
its own, so it suffices that the store does not grow there (`StepsPlaced.grows` up to
`FeaturePlaced.grows`).
-/

namespace StepTrace

/-! ## Lists with numbered elements -/

/-- Every element satisfies the predicate together with its position. -/
def Numbered {α : Type} (P : Nat → α → Prop) (xs : List α) : Prop :=
  ∀ i x, xs[i]? = some x → P i x

namespace Numbered

variable {α : Type} {P Q : Nat → α → Prop} {xs : List α} {x : α}

theorem nil : Numbered P [] := by
  intro i x h
  simp at h

theorem append (hxs : Numbered P xs) (hx : P xs.length x) : Numbered P (xs ++ [x]) := by
  intro i y hy
  rw [List.getElem?_append] at hy
  split at hy
  · exact hxs i y hy
  · rename_i hlength
    have hi : i = xs.length := by
      by_contra hne
      rw [List.getElem?_eq_none (by simp; omega)] at hy
      cases hy
    subst hi
    simp only [Nat.sub_self, List.getElem?_cons_zero, Option.some.injEq] at hy
    exact hy ▸ hx

theorem mono (hxs : Numbered P xs) (h : ∀ i x, x ∈ xs → P i x → Q i x) : Numbered Q xs :=
  fun i x hx => h i x (List.mem_of_getElem? hx) (hxs i x hx)

theorem exists_of_mem (hxs : Numbered P xs) (hx : x ∈ xs) : ∃ i, P i x := by
  obtain ⟨i, hi⟩ := List.mem_iff_getElem?.mp hx
  exact ⟨i, hxs i x hi⟩

end Numbered

/-! ## Regions -/

/-- The kinds of the parts of features. -/
def Kind.IsPart : Kind → Prop
  | .scenario | .outline | .examples | .step => True
  | _ => False

/-- The registrations of parts under an identifier. -/
def PartsUnder (owner id : String) (e : Entry) : Prop :=
  Under owner id ∧ e.kind.IsPart

/-- The registrations of parts under an identifier, itself excepted. -/
def PartsBelow (owner id : String) (e : Entry) : Prop :=
  PartsUnder owner id e ∧ id ≠ owner

theorem PartsBelow.of_part {owner label id : String} {e : Entry} (hlabel : IsLabel label)
    (h : PartsUnder (part owner label) id e) : PartsBelow owner id e := by
  refine ⟨⟨h.1.of_part hlabel, h.2⟩, ?_⟩
  rintro rfl
  exact not_under_part_self _ _ h.1

theorem partsUnder_self {id : String} {e : Entry} (hkind : e.kind.IsPart) : PartsUnder id id e :=
  ⟨.refl _, hkind⟩

/-- The regions of two parts of one owner have nothing in common. -/
theorem not_partsUnder_of_ne {owner label label' id : String} {e : Entry} (hlabel : IsLabel label)
    (hlabel' : IsLabel label') (hne : label ≠ label') (hid : Under (part owner label) id) :
    ¬ PartsUnder (part owner label') id e :=
  fun h => hne (eq_of_under_part hlabel hlabel' hid h.1)

/-! ## Placed records -/

namespace Store

/-- The record has the identifier and is registered under it. -/
structure Placed (s : Store) (e : Entry) (id : String) : Prop where
  has : s.Has e
  idOf : s.idOf e = id
  find? : s.catalog.find? id = some e

/-- The steps of an owner are registered under their numbers and name it. -/
def StepsPlaced (s : Store) (owner : String) (steps : List (Ref Step)) : Prop :=
  Numbered (fun i r => s.Placed (.step r) (part owner (stepLabel (i + 1))) ∧
    (s.get r).scenarioId = owner) steps

/-- A background, plain scenario or row is registered with its steps and names its owners. -/
structure ScenarioPlaced (s : Store) (feature : String) (outline : Option String)
    (r : Ref Scenario) (id : String) : Prop where
  placed : s.Placed (.scenario r) id
  featureId : (s.get r).featureId = feature
  outlineId : (s.get r).outlineId = outline
  steps : s.StepsPlaced id (s.get r).steps

/-- The examples of an outline are registered under their numbers and name it. -/
def ExamplesPlaced (s : Store) (outline : String) (examples : List (Ref Examples)) : Prop :=
  Numbered (fun i r => s.Placed (.examples r) (part outline (examplesLabel i)) ∧
    (s.get r).outlineId = outline) examples

/-- The rows of an outline are registered under their numbers and name it. -/
def RowsPlaced (s : Store) (feature outline : String) (rows : List (Ref Scenario)) : Prop :=
  Numbered (fun i r =>
    s.ScenarioPlaced feature (some outline) r (part outline (rowLabel (i + 1)))) rows

/-- An outline is registered with its steps, examples and rows and names its feature. -/
structure OutlinePlaced (s : Store) (feature : String) (r : Ref Outline) (id : String) :
    Prop where
  placed : s.Placed (.outline r) id
  featureId : (s.get r).featureId = feature
  steps : s.StepsPlaced id (s.get r).steps
  examples : s.ExamplesPlaced id (s.get r).examples
  rows : s.RowsPlaced feature id (s.get r).scenarios

/-- A plain scenario or an outline is placed. -/
def ContainerPlaced (s : Store) (feature : String) (container : Container) (id : String) :
    Prop :=
  match container with
  | .scenario r => s.ScenarioPlaced feature none r id
  | .outline r => s.OutlinePlaced feature r id

/-- The background of a feature, if it has one, is placed. -/
def BackgroundPlaced (s : Store) (feature : String) (background : Option (Ref Scenario)) :
    Prop :=
  ∀ r, background = some r → s.ScenarioPlaced feature none r (part feature backgroundLabel)

/-- The containers of a feature are registered under their numbers. -/
def ContainersPlaced (s : Store) (feature : String) (containers : List Container) : Prop :=
  Numbered (fun i c => s.ContainerPlaced feature c (part feature (scenarioLabel (i + 1))))
    containers

/-- A feature is registered with all its parts. -/
structure FeaturePlaced (s : Store) (r : Ref Feature) (id : String) : Prop where
  placed : s.Placed (.feature r) id
  background : s.BackgroundPlaced id (s.get r).background
  containers : s.ContainersPlaced id (s.get r).scenarios

/-- What is registered is placed under its identifier. -/
theorem placed_register {α : Type} [Record α] [HeapRecord α] (s : Store) (x : α) :
    (s.register x).1.Placed (Record.entry (s.register x).2) (Record.id x) where
  has := has_register_self s x
  idOf := by rw [idOf_entry, get_register_self]
  find? := by rw [catalog_register, Catalog.find?_insert_self]

/-- What is entered is placed under its identifier. -/
theorem placed_enter {α : Type} [Record α] [HeapRecord α] {s : Store} {r : Ref α} {id : String}
    (hr : s.Has (Record.entry r)) (hid : Record.id (s.get r) = id) :
    (s.enter r).Placed (Record.entry r) id where
  has := (has_enter s r _).mpr hr
  idOf := by rw [idOf_eq, content_enter, ← idOf_eq, idOf_entry, hid]
  find? := by rw [catalog_enter, hid, Catalog.find?_insert_self]

/-- What is registered grows what is under its identifier. -/
theorem Grows.register_part {α : Type} [Record α] [HeapRecord α] {hole : Entry → Prop} {id : String}
    (s : Store) {x : α} (hid : Record.id x = id)
    (hkind : ∀ r : Ref α, (Record.entry r).kind.IsPart) :
    Grows (PartsUnder id) hole s (s.register x).1 :=
  .register s fun r => hid ▸ partsUnder_self (hkind r)

/-! ## What is placed stays placed -/

variable {s s' : Store} {region : String → Entry → Prop} {hole : Entry → Prop}

theorem Placed.grows {e : Entry} {id : String} (h : s.Placed e id)
    (hgrows : Grows region hole s s') (hout : ∀ e, ¬ region id e) : s'.Placed e id where
  has := hgrows.has h.has
  idOf := (hgrows.idOf h.has).trans h.idOf
  find? := hgrows.catalog.find?_eq_some hout h.find?

theorem StepsPlaced.grows {owner : String} {steps : List (Ref Step)}
    (h : s.StepsPlaced owner steps) (hgrows : Grows region hole s s')
    (hout : ∀ i id e, i < steps.length → Under (part owner (stepLabel (i + 1))) id → ¬ region id e)
    (hhole : ∀ r, ¬ hole (.step r)) : s'.StepsPlaced owner steps := by
  intro i r hr
  obtain ⟨hplaced, howner⟩ := h i r hr
  have hi : i < steps.length := (List.getElem?_eq_some_iff.mp hr).1
  refine ⟨hplaced.grows hgrows fun e => hout i _ e hi (.refl _), ?_⟩
  rw [hgrows.get_step hplaced.has (hhole r), howner]

/-- Nothing but the records of parts has to stay. -/
def SparesParts (hole : Entry → Prop) : Prop :=
  ∀ e, e.kind.IsPart → ¬ hole e

/-- Nothing but the records of scenarios and steps has to stay. -/
def SparesRows (hole : Entry → Prop) : Prop :=
  ∀ e, e.kind = .scenario ∨ e.kind = .step → ¬ hole e

theorem SparesParts.rows (h : SparesParts hole) : SparesRows hole := by
  rintro e (he | he) <;> exact h e (by rw [he]; trivial)

theorem sparesParts_feature (r : Ref Feature) : SparesParts (· = .feature r) := by
  rintro _ he rfl
  exact he

theorem sparesRows_outline (r : Ref Outline) : SparesRows (· = .outline r) := by
  rintro _ (he | he) rfl <;> cases he

theorem ScenarioPlaced.grows {feature : String} {outline : Option String} {r : Ref Scenario}
    {id : String} (h : s.ScenarioPlaced feature outline r id)
    (hgrows : Grows region hole s s') (hout : ∀ id' e, Under id id' → ¬ region id' e)
    (hhole : SparesRows hole) :
    s'.ScenarioPlaced feature outline r id := by
  have hsame := hgrows.get_scenario h.placed.has (hhole _ (Or.inl rfl))
  constructor
  case placed => exact h.placed.grows hgrows fun e => hout _ e (.refl _)
  case featureId =>
    rw [hsame, h.featureId]
  case outlineId =>
    rw [hsame, h.outlineId]
  case steps =>
    rw [hsame]
    exact h.steps.grows hgrows
      (fun i id' e _ hid => hout id' e (hid.of_part (isLabel_step _))) fun r => hhole _ (Or.inr rfl)

theorem ExamplesPlaced.grows {outline : String} {examples : List (Ref Examples)}
    (h : s.ExamplesPlaced outline examples) (hgrows : Grows region hole s s')
    (hout : ∀ i id e, i < examples.length → Under (part outline (examplesLabel i)) id →
      ¬ region id e)
    (hhole : ∀ r, ¬ hole (.examples r)) : s'.ExamplesPlaced outline examples := by
  intro i r hr
  obtain ⟨hplaced, howner⟩ := h i r hr
  have hi : i < examples.length := (List.getElem?_eq_some_iff.mp hr).1
  refine ⟨hplaced.grows hgrows fun e => hout i _ e hi (.refl _), ?_⟩
  rw [hgrows.get_examples hplaced.has (hhole r), howner]

theorem RowsPlaced.grows {feature outline : String} {rows : List (Ref Scenario)}
    (h : s.RowsPlaced feature outline rows) (hgrows : Grows region hole s s')
    (hout : ∀ i id e, i < rows.length → Under (part outline (rowLabel (i + 1))) id →
      ¬ region id e)
    (hhole : SparesRows hole) :
    s'.RowsPlaced feature outline rows := by
  intro i r hr
  have hi : i < rows.length := (List.getElem?_eq_some_iff.mp hr).1
  exact (h i r hr).grows hgrows (fun id e => hout i id e hi) hhole

theorem OutlinePlaced.grows {feature : String} {r : Ref Outline} {id : String}
    (h : s.OutlinePlaced feature r id) (hgrows : Grows region hole s s')
    (hout : ∀ id' e, Under id id' → ¬ region id' e) (hhole : SparesParts hole) :
    s'.OutlinePlaced feature r id := by
  have hsame := hgrows.get_outline h.placed.has (hhole _ trivial)
  constructor
  case placed => exact h.placed.grows hgrows fun e => hout _ e (.refl _)
  case featureId =>
    rw [hsame, h.featureId]
  case steps =>
    rw [hsame]
    exact h.steps.grows hgrows
      (fun i id' e _ hid => hout id' e (hid.of_part (isLabel_step _))) fun r => hhole _ trivial
  case examples =>
    rw [hsame]
    exact h.examples.grows hgrows
      (fun i id' e _ hid => hout id' e (hid.of_part (isLabel_examples i)))
      fun r => hhole _ trivial
  case rows =>
    rw [hsame]
    exact h.rows.grows hgrows
      (fun i id' e _ hid => hout id' e (hid.of_part (isLabel_row _))) hhole.rows

theorem ContainerPlaced.grows {feature : String} {container : Container} {id : String}
    (h : s.ContainerPlaced feature container id) (hgrows : Grows region hole s s')
    (hout : ∀ id' e, Under id id' → ¬ region id' e) (hhole : SparesParts hole) :
    s'.ContainerPlaced feature container id := by
  cases container with
  | scenario r => exact ScenarioPlaced.grows h hgrows hout hhole.rows
  | outline r => exact OutlinePlaced.grows h hgrows hout hhole

theorem BackgroundPlaced.grows {feature : String} {background : Option (Ref Scenario)}
    (h : s.BackgroundPlaced feature background) (hgrows : Grows region hole s s')
    (hout : ∀ id e, Under (part feature backgroundLabel) id → ¬ region id e)
    (hhole : SparesParts hole) : s'.BackgroundPlaced feature background := by
  exact fun r hr => (h r hr).grows hgrows hout hhole.rows

theorem ContainersPlaced.grows {feature : String} {containers : List Container}
    (h : s.ContainersPlaced feature containers) (hgrows : Grows region hole s s')
    (hout : ∀ i id e, i < containers.length →
      Under (part feature (scenarioLabel (i + 1))) id → ¬ region id e)
    (hhole : SparesParts hole) : s'.ContainersPlaced feature containers := by
  intro i c hc
  have hi : i < containers.length := (List.getElem?_eq_some_iff.mp hc).1
  exact (h i c hc).grows hgrows (fun id e => hout i id e hi) hhole

theorem FeaturePlaced.grows {r : Ref Feature} {id : String} (h : s.FeaturePlaced r id)
    (hgrows : Grows region hole s s') (hout : ∀ id' e, Under id id' → ¬ region id' e)
    (hhole : SparesParts hole) (hr : ¬ hole (.feature r)) : s'.FeaturePlaced r id := by
  have hsame := hgrows.get_feature h.placed.has hr
  constructor
  case placed => exact h.placed.grows hgrows fun e => hout _ e (.refl _)
  case background =>
    rw [hsame]
    exact h.background.grows hgrows
      (fun id' e hid => hout id' e (hid.of_part isLabel_background)) hhole
  case containers =>
    rw [hsame]
    exact h.containers.grows hgrows
      (fun i id' e _ hid => hout id' e (hid.of_part (isLabel_scenario _))) hhole

/-! ## Growth at one more part -/

section

variable {owner label : String}

theorem StepsPlaced.grows_part {steps : List (Ref Step)} (h : s.StepsPlaced owner steps)
    (hgrows : Grows (PartsUnder (part owner label)) hole s s') (hlabel : IsLabel label)
    (hne : ∀ i, i < steps.length → stepLabel (i + 1) ≠ label) (hhole : ∀ r, ¬ hole (.step r)) :
    s'.StepsPlaced owner steps :=
  h.grows hgrows
    (fun i _ _ hi hid => not_partsUnder_of_ne (isLabel_step _) hlabel (hne i hi) hid) hhole

theorem ExamplesPlaced.grows_part {examples : List (Ref Examples)}
    (h : s.ExamplesPlaced owner examples) (hgrows : Grows (PartsUnder (part owner label)) hole s s')
    (hlabel : IsLabel label) (hne : ∀ i, i < examples.length → examplesLabel i ≠ label)
    (hhole : ∀ r, ¬ hole (.examples r)) : s'.ExamplesPlaced owner examples :=
  h.grows hgrows
    (fun i _ _ hi hid => not_partsUnder_of_ne (isLabel_examples _) hlabel (hne i hi) hid) hhole

theorem RowsPlaced.grows_part {feature : String} {rows : List (Ref Scenario)}
    (h : s.RowsPlaced feature owner rows) (hgrows : Grows (PartsUnder (part owner label)) hole s s')
    (hlabel : IsLabel label) (hne : ∀ i, i < rows.length → rowLabel (i + 1) ≠ label)
    (hhole : SparesRows hole) :
    s'.RowsPlaced feature owner rows :=
  h.grows hgrows
    (fun i _ _ hi hid => not_partsUnder_of_ne (isLabel_row _) hlabel (hne i hi) hid) hhole

theorem BackgroundPlaced.grows_part {background : Option (Ref Scenario)}
    (h : s.BackgroundPlaced owner background)
    (hgrows : Grows (PartsUnder (part owner label)) hole s s') (hlabel : IsLabel label)
    (hne : backgroundLabel ≠ label) (hhole : SparesParts hole) :
    s'.BackgroundPlaced owner background :=
  h.grows hgrows (fun _ _ hid => not_partsUnder_of_ne isLabel_background hlabel hne hid) hhole

theorem ContainersPlaced.grows_part {containers : List Container}
    (h : s.ContainersPlaced owner containers)
    (hgrows : Grows (PartsUnder (part owner label)) hole s s') (hlabel : IsLabel label)
    (hne : ∀ i, i < containers.length → scenarioLabel (i + 1) ≠ label)
    (hhole : SparesParts hole) : s'.ContainersPlaced owner containers :=
  h.grows hgrows
    (fun i _ _ hi hid => not_partsUnder_of_ne (isLabel_scenario _) hlabel (hne i hi) hid) hhole

end

end Store

end StepTrace
