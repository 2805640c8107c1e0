import Mathlib.Algebra.GroupWithZero.Nat
import StepTrace.Proofs.Batch.Outcomes

/-!
# Integrity of what a batch has built

After a batch that comes to its end, whatever it has excluded or passed over, each registered feature
counts the scenarios that run; all that can be reached from one is what is registered under its
identifier, and no two of these are the same; and what names an owner names the one that holds it
(`Intact`).
-/

namespace StepTrace

open Store

namespace Store

/-- The number of scenarios that a container should run as: itself, or one for each data row. -/
def expectedRuns (s : Store) : Container → Nat
  | .scenario _ => 1
  | .outline o => ((s.get o).examples.map fun e => (s.get e).dataRows.length).sum

/-! ## Names of owners -/

/-- The scenario names the feature and, if it is a row, the outline; its steps name it. -/
structure ScenarioNames (s : Store) (feature : String) (outline : Option String)
    (x : Ref Scenario) : Prop where
  featureId : (s.get x).featureId = feature
  outlineId : (s.get x).outlineId = outline
  steps : ∀ y ∈ (s.get x).steps, (s.get y).scenarioId = (s.get x).id

/-- The outline names the feature, and its steps, examples and rows name it. -/
structure OutlineNames (s : Store) (feature : String) (o : Ref Outline) : Prop where
  featureId : (s.get o).featureId = feature
  steps : ∀ y ∈ (s.get o).steps, (s.get y).scenarioId = (s.get o).id
  examples : ∀ e ∈ (s.get o).examples, (s.get e).outlineId = (s.get o).id
  rows : ∀ x ∈ (s.get o).scenarios, s.ScenarioNames feature (some (s.get o).id) x

/-- All parts of the feature name what holds them, and it names the namespace that lists it. -/
structure OwnersNamed (s : Store) (r : Ref Feature) : Prop where
  nameSpace : s.Housed r
  background : ∀ x, (s.get r).background = some x → s.ScenarioNames (s.get r).id none x
  scenario : ∀ x, .scenario x ∈ (s.get r).scenarios → s.ScenarioNames (s.get r).id none x
  outline : ∀ o, .outline o ∈ (s.get r).scenarios → s.OutlineNames (s.get r).id o

variable {s : Store} {feature id : String} {r : Ref Feature}

theorem StepsPlaced.scenarioId {owner : String} {steps : List (Ref Step)}
    (h : s.StepsPlaced owner steps) : ∀ y ∈ steps, (s.get y).scenarioId = owner := by
  intro y hy
  obtain ⟨i, -, hi⟩ := h.exists_of_mem hy
  exact hi

theorem ScenarioPlaced.names {outline : Option String} {x : Ref Scenario}
    (h : s.ScenarioPlaced feature outline x id) : s.ScenarioNames feature outline x := by
  refine ⟨h.featureId, h.outlineId, ?_⟩
  rw [show (s.get x).id = id from h.placed.idOf]
  exact h.steps.scenarioId

theorem OutlinePlaced.names {o : Ref Outline} (h : s.OutlinePlaced feature o id) :
    s.OutlineNames feature o := by
  have hid : (s.get o).id = id := h.placed.idOf
  refine ⟨h.featureId, ?_, ?_, ?_⟩
  all_goals rw [hid]
  · exact h.steps.scenarioId
  · intro e he
    obtain ⟨i, -, hi⟩ := h.examples.exists_of_mem he
    exact hi
  · intro x hx
    obtain ⟨i, hi⟩ := h.rows.exists_of_mem hx
    exact hi.names

theorem FeaturePlaced.ownersNamed (h : s.FeaturePlaced r id) (hhoused : s.Housed r) :
    s.OwnersNamed r := by
  have hid : (s.get r).id = id := h.placed.idOf
  refine ⟨hhoused, ?_, ?_, ?_⟩
  all_goals rw [hid]
  · exact fun x hx => (h.background x hx).names
  · intro x hx
    obtain ⟨i, hi⟩ := h.containers.exists_of_mem hx
    exact ScenarioPlaced.names hi
  · intro o ho
    obtain ⟨i, hi⟩ := h.containers.exists_of_mem ho
    exact OutlinePlaced.names hi

/-! ## Counts -/

theorem expectedScenarios_eq_sum (s : Store) (o : Ref Outline) :
    s.expectedScenarios (s.get o) = s.expectedRuns (.outline o) := by
  rw [expectedScenarios, expectedRuns, List.sum_eq_foldl]

/-- If every outline is exploded, as many scenarios run as the containers should run as. -/
theorem length_executableScenarios (hcounted : Build.Counted s r) :
    (s.executableScenarios (s.get r)).length = ((s.get r).scenarios.map s.expectedRuns).sum := by
  rw [Build.executableScenarios_eq, List.length_flatMap]
  congr 1
  refine List.map_congr_left fun c hc => ?_
  cases c with
  | scenario x => rfl
  | outline o =>
      have hexploded := hcounted.exploded o hc
      rw [← expectedScenarios_eq_sum]
      exact hexploded

end Store

/-- The features of a registry are counted, all that they hold is registered under identifiers of
its own, and what names an owner names the one that holds it. -/
structure Intact (s : Store) : Prop where
  executable : ∀ r ∈ s.allFeatures,
    (s.get r).totalScenarios = (s.executableScenarios (s.get r)).length
  rows : ∀ r ∈ s.allFeatures,
    (s.get r).totalScenarios = ((s.get r).scenarios.map s.expectedRuns).sum
  registered : ∀ e ∈ s.allFeatures.flatMap s.featureParts, s.catalog.find? (s.idOf e) = some e
  distinct : ((s.allFeatures.flatMap s.featureParts).map s.idOf).Nodup
  owners : ∀ r ∈ s.allFeatures, s.OwnersNamed r

namespace Batch

theorem Sound.intact {names : List String} {s : Store} (h : Sound names s) : Intact s := by
  have hc := h.orderly.consistent
  obtain ⟨hplaced, hdistinct⟩ := h.orderly.parts fun _ => PlainName.featureFile
  refine ⟨?_, ?_, fun e he => (hplaced e he).find?, hdistinct, ?_⟩
  all_goals
    intro r hr
    obtain ⟨id, hid⟩ := (mem_allFeatures hc).mp hr
  · exact (h.counted hid).total
  · rw [(h.counted hid).total, length_executableScenarios (h.counted hid)]
  · exact (h.orderly.placed hid).ownersNamed (h.housed hid)

/-- **What a batch has built is intact**, and its features are those that are registered. -/
theorem build_intact {tree : FileTree} {settings : Settings} {base : Option Path}
    {sources : List Source} {contents : List (Option Value)} {warnings : List Warning}
    {batch : Batch} {w : Work} (hreads : List.Forall₂ Source.Reads sources contents)
    (hplain : ∀ source ∈ sources, PlainPath (knownAs base source.path))
    (hdistinct : (sources.map fun source => (knownAs base source.path).toString).Nodup)
    (hrun : (build tree settings base sources).run { store := {}, warnings } = (.ok batch, w)) :
    Intact w.store ∧ ∀ r, r ∈ w.store.allFeatures ↔ r ∈ batch.features := by
  have hfresh : Fresh [] (List.zipWith (callFor tree settings base) sources contents) :=
    fresh_calls hreads hplain hdistinct
  obtain ⟨built, hall, hfeatures⟩ := build_outcomes hreads sound_empty hfresh hrun
  obtain ⟨hsound, hgains⟩ := sound_empty.outcomes hfresh hall
  refine ⟨hsound.intact, fun r => ?_⟩
  rw [mem_allFeatures hsound.orderly.consistent, hfeatures, List.mem_map]
  constructor
  · rintro ⟨id, hid⟩
    rcases (hgains id r).mp hid with hold | ⟨call, hmem, -⟩
    · cases hold
    · exact ⟨_, hmem, rfl⟩
  · rintro ⟨⟨r, call⟩, hmem, rfl⟩
    exact ⟨_, (hgains _ r).mpr (Or.inr ⟨call, hmem, rfl⟩)⟩

private def tagNodes (names : List String) : Value :=
  .list (names.map fun name => .ofFields [("name", .text name)])

private def stepNode (text : String) : Value :=
  .ofFields [("keyword", .text "Given "), ("text", .text text)]

private def tableRow (cells : List String) : Value :=
  .ofFields [("cells", .list (cells.map fun cell => .ofFields [("value", .text cell)]))]

/-- A feature with a background, a scenario, and an outline with two rows and an excluded table. -/
private def orders : Value :=
  .ofFields [("feature", .ofFields [
    ("tags", tagNodes ["@shop"]),
    ("children", .list [
      .ofFields [("background", .ofFields [("steps", .list [stepNode "an order"])])],
      .ofFields [("scenario", .ofFields [
        ("tags", tagNodes ["@smoke"]), ("steps", .list [stepNode "it is paid"])])],
      .ofFields [("scenario", .ofFields [
        ("steps", .list [stepNode "<count> items"]),
        ("examples", .list [
          .ofFields [("tableHeader", tableRow ["count"]),
            ("tableBody", .list [tableRow ["1"], tableRow ["2"]])],
          .ofFields [("tags", tagNodes ["@wip"]), ("tableHeader", tableRow ["count"]),
            ("tableBody", .list [tableRow ["3"]])]])])]])])]

/-- A feature whose second scenario has a malformed step. -/
private def basket : Value :=
  .ofFields [("feature", .ofFields [("children", .list [
    .ofFields [("scenario", .ofFields [("steps", .list [stepNode "a basket"])])],
    .ofFields [("scenario", .ofFields [("steps", .list [.ofFields []])])]])])]

private def shop : List Source :=
  [⟨.ofString "shop/order.feature", pure (some orders)⟩,
    ⟨.ofString "shop/basket.feature", pure (some basket)⟩,
    ⟨.ofString "pay.feature", pure none⟩,
    ⟨.ofString "shop/return.feature", pure (some orders)⟩]

private def buildShop : Job Batch :=
  build { workingDirectory := .ofString "/" } { excludedTags := [.text "@wip"] } none shop

/-- Of four files one is malformed, one has no document, and two are built. -/
theorem build_intact_shop : ∃ batch w, buildShop.run { store := {} } = (.ok batch, w) ∧
    batch.features = [⟨0⟩, ⟨2⟩] ∧ Intact w.store ∧
      ∀ r, r ∈ w.store.allFeatures ↔ r ∈ batch.features := by
  have hpure (path : Path) (content : Option Value) :
      Source.Reads ⟨path, pure content⟩ content := by
    rintro w c w' ⟨⟩
    exact ⟨rfl, rfl⟩
  have hreads : List.Forall₂ Source.Reads shop [some orders, some basket, none, some orders] :=
    .cons (hpure _ _) (.cons (hpure _ _) (.cons (hpure _ _) (.cons (hpure _ _) .nil)))
  have hknown : shop.map (fun source => knownAs none source.path) =
      [.ofString "shop/order.feature", .ofString "shop/basket.feature", .ofString "pay.feature",
        .ofString "shop/return.feature"] := by decide +kernel
  have hplain : ∀ source ∈ shop, PlainPath (knownAs none source.path) := by
    intro source hsource
    have hmem := List.mem_map_of_mem (f := fun source => knownAs none source.path) hsource
    simp only [hknown, List.mem_cons, List.not_mem_nil, or_false] at hmem
    rcases hmem with h | h | h | h
    all_goals
      rw [h]
      exact plainPath_ofString (by decide) (by decide)
  have hfeatures : (buildShop.run { store := {} }).1.toOption.map (·.features) =
      some [⟨0⟩, ⟨2⟩] := by decide +kernel
  have hintact (batch : Batch) (w : Work) (hrun : buildShop.run { store := {} } = (.ok batch, w)) :=
    build_intact hreads hplain (by decide +kernel) hrun
  generalize buildShop.run { store := {} } = left at hfeatures hintact
  obtain ⟨fault | batch, w⟩ := left
  · cases hfeatures
  · exact ⟨batch, w, rfl, Option.some.inj hfeatures, hintact batch w rfl⟩

end Batch

end StepTrace
