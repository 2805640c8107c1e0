import StepTrace.Proofs.Registry.Parts

/-!
# What survives a change of links

Linking changes the links of steps and what definitions and transforms know of their steps; their
patterns may be exchanged, and they may come in and go.  All else that is registered stays what it
is (`Preserves`), and so an orderly registry stays orderly (`Orderly.preserved`).
-/

namespace StepTrace

/-- The kinds of what steps are linked to. -/
def Kind.IsTarget : Kind → Prop
  | .definition | .transform => True
  | _ => False

/-- The record without its links, and without its pattern if it has one. -/
def Content.unlinked : Content → Content
  | step x => step { x with definition := none, transforms := [] }
  | definition x => definition { x with pattern := .null, steps := [] }
  | transform x => transform { x with pattern := .null, steps := [] }
  | c => c

theorem Content.unlinked_id (c : Content) : c.unlinked.id = c.id := by
  cases c <;> rfl

namespace Store

/-- What is registered, targets of links excepted, stays what it is up to links. -/
structure Preserves (s s' : Store) : Prop where
  find? : ∀ {id e}, s.catalog.find? id = some e → ¬ e.kind.IsTarget →
    s'.catalog.find? id = some e
  has : ∀ {id e}, s.catalog.find? id = some e → ¬ e.kind.IsTarget → s'.Has e
  content : ∀ {id e}, s.catalog.find? id = some e → ¬ e.kind.IsTarget →
    (s'.content e).unlinked = (s.content e).unlinked

variable {s s' : Store} {id owner feature : String}

namespace Preserves

theorem placed (h : s.Preserves s') {e : Entry} (he : s.Placed e id) (hkind : ¬ e.kind.IsTarget) :
    s'.Placed e id where
  has := h.has he.find? hkind
  idOf := by
    have hid := congrArg Content.id (h.content he.find? hkind)
    rw [Content.unlinked_id, Content.unlinked_id, ← idOf_eq, ← idOf_eq] at hid
    rw [hid, he.idOf]
  find? := h.find? he.find? hkind

variable (h : s.Preserves s')
include h

theorem get_nameSpace {r : Ref Namespace} (hr : s.catalog.find? id = some (.nameSpace r)) :
    s'.get r = s.get r :=
  Content.nameSpace.inj (h.content hr nofun)

theorem get_feature {r : Ref Feature} (hr : s.catalog.find? id = some (.feature r)) :
    s'.get r = s.get r :=
  Content.feature.inj (h.content hr nofun)

theorem get_scenario {r : Ref Scenario} (hr : s.catalog.find? id = some (.scenario r)) :
    s'.get r = s.get r :=
  Content.scenario.inj (h.content hr nofun)

theorem get_outline {r : Ref Outline} (hr : s.catalog.find? id = some (.outline r)) :
    s'.get r = s.get r :=
  Content.outline.inj (h.content hr nofun)

theorem get_examples {r : Ref Examples} (hr : s.catalog.find? id = some (.examples r)) :
    s'.get r = s.get r :=
  Content.examples.inj (h.content hr nofun)

theorem get_tag {r : Ref Tag} (hr : s.catalog.find? id = some (.tag r)) : s'.get r = s.get r :=
  Content.tag.inj (h.content hr nofun)

theorem get_step {r : Ref Step} (hr : s.catalog.find? id = some (.step r)) :
    { s'.get r with definition := none, transforms := [] } =
      { s.get r with definition := none, transforms := [] } :=
  Content.step.inj (h.content hr nofun)

/-! ## Placed parts stay placed -/

theorem stepsPlaced {steps : List (Ref Step)} (hsteps : s.StepsPlaced owner steps) :
    s'.StepsPlaced owner steps := by
  refine hsteps.mono fun i r _ hr => ⟨h.placed hr.1 nofun, ?_⟩
  rw [← hr.2]
  exact (congrArg Step.scenarioId (h.get_step hr.1.find?) :)

theorem scenarioPlaced {outline : Option String} {r : Ref Scenario}
    (hr : s.ScenarioPlaced feature outline r id) : s'.ScenarioPlaced feature outline r id := by
  have hsame := h.get_scenario hr.placed.find?
  refine ⟨h.placed hr.placed nofun, by rw [hsame, hr.featureId], by rw [hsame, hr.outlineId], ?_⟩
  rw [hsame]
  exact h.stepsPlaced hr.steps

theorem examplesPlaced {examples : List (Ref Examples)}
    (hexamples : s.ExamplesPlaced owner examples) : s'.ExamplesPlaced owner examples := by
  refine hexamples.mono fun i r _ hr => ⟨h.placed hr.1 nofun, ?_⟩
  rw [h.get_examples hr.1.find?, hr.2]

theorem rowsPlaced {rows : List (Ref Scenario)} (hrows : s.RowsPlaced feature owner rows) :
    s'.RowsPlaced feature owner rows :=
  hrows.mono fun _ _ _ hr => h.scenarioPlaced hr

theorem outlinePlaced {r : Ref Outline} (hr : s.OutlinePlaced feature r id) :
    s'.OutlinePlaced feature r id := by
  have hsame := h.get_outline hr.placed.find?
  refine ⟨h.placed hr.placed nofun, by rw [hsame, hr.featureId], ?_, ?_, ?_⟩
  all_goals rw [hsame]
  · exact h.stepsPlaced hr.steps
  · exact h.examplesPlaced hr.examples
  · exact h.rowsPlaced hr.rows

theorem containerPlaced {container : Container} (hc : s.ContainerPlaced feature container id) :
    s'.ContainerPlaced feature container id := by
  cases container with
  | scenario r => exact h.scenarioPlaced hc
  | outline r => exact h.outlinePlaced hc

theorem featurePlaced {r : Ref Feature} (hr : s.FeaturePlaced r id) : s'.FeaturePlaced r id := by
  have hsame := h.get_feature hr.placed.find?
  refine ⟨h.placed hr.placed nofun, ?_, ?_⟩
  all_goals rw [hsame]
  · exact fun x hx => h.scenarioPlaced (hr.background x hx)
  · exact hr.containers.mono fun _ _ _ hc => h.containerPlaced hc

theorem executableScenarios {r : Ref Feature} (hr : s.FeaturePlaced r id) :
    s'.executableScenarios (s'.get r) = s.executableScenarios (s.get r) := by
  rw [h.get_feature hr.placed.find?]
  unfold Store.executableScenarios
  refine List.flatMap_congr fun c hc => ?_
  obtain ⟨i, hi⟩ := hr.containers.exists_of_mem hc
  cases c with
  | scenario x => rfl
  | outline x => exact congrArg Outline.scenarios (h.get_outline (OutlinePlaced.placed hi).find?)

theorem stepContainers {r : Ref Feature} (hr : s.FeaturePlaced r id) :
    s'.stepContainers (s'.get r) = s.stepContainers (s.get r) := by
  rw [Store.stepContainers, h.executableScenarios hr, h.get_feature hr.placed.find?,
    Store.stepContainers]

end Preserves

/-! ## Orderly registries stay orderly -/

variable {files : String → Prop} {linked : Prop}

/-- The change also registers nothing but targets, and these under their identifiers. -/
structure Relinked (linked : Prop) (s s' : Store) : Prop extends Preserves s s' where
  consistent : s'.catalog.Consistent
  old : ∀ {id e}, s'.catalog.find? id = some e → ¬ e.kind.IsTarget →
    s.catalog.find? id = some e
  target : ∀ {id e}, s'.catalog.find? id = some e → e.kind.IsTarget → linked ∧ s'.Placed e id

theorem Relinked.labelled (hlinks : Relinked linked s s') (h : s.Labelled) : s'.Labelled := by
  intro id e he
  by_cases hkind : e.kind.IsTarget
  · exact (hlinks.target he hkind).2
  · exact hlinks.placed (h (hlinks.old he hkind)) hkind

theorem Sorted.relinked (h : Sorted files linked s) (hlinks : Relinked linked s s') :
    Sorted files linked s' where
  consistent := hlinks.consistent
  labelled := hlinks.labelled h.labelled
  fits := by
    intro id e he
    by_cases hkind : e.kind.IsTarget
    · have hlinked := (hlinks.target he hkind).1
      cases e <;> first | exact hlinked | exact hkind.elim
    · exact h.fits (hlinks.old he hkind)
  tree := by
    refine ⟨fun hn => h.tree.isDirectory (hlinks.old hn nofun), ?_, ?_⟩
    · intro id n name c hn hc
      have hn' := hlinks.old hn nofun
      rw [hlinks.get_nameSpace hn'] at hc
      obtain ⟨hname, hplaced⟩ := h.tree.child hn' hc
      exact ⟨hname, hlinks.placed hplaced nofun⟩
    · intro id n hn
      rcases h.tree.parent (hlinks.old hn nofun) with hroot |
        ⟨id', n', name, hname, heq, hn', hc⟩
      · exact Or.inl hroot
      · refine Or.inr ⟨id', n', name, hname, heq, hlinks.find? hn' nofun, ?_⟩
        rw [hlinks.get_nameSpace hn', hc]

theorem Orderly.relinked (h : Orderly files linked s) (hlinks : Relinked linked s s') :
    Orderly files linked s' := by
  refine ⟨h.toSorted.relinked hlinks, ?_, ?_⟩
  · intro id e he hpart
    have hkind : ¬ e.kind.IsTarget := by
      intro hkind
      cases e <;> first | exact hkind | exact hpart
    obtain ⟨file, r, hfile, hunder, hr⟩ := h.owned (hlinks.old he hkind) hpart
    exact ⟨file, r, hfile, hunder, hlinks.find? hr nofun⟩
  · intro id r hr
    exact hlinks.featurePlaced (h.placed (hlinks.old hr nofun))

end Store

end StepTrace
