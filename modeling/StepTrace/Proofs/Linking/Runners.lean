import StepTrace.Proofs.Build.Changes
import StepTrace.Proofs.Linking.Exact

/-!
# The steps that run

What a pass may link are the steps that run.  Wherever the files of a registry lie, and however
their builds ended,

* every step is listed by one record only, and so no template of an outline runs (`StepsApart`);
* no other step is registered under the identifier of a step that runs (`Sole`), though a namespace
  may be;
* a template is linked to nothing as it comes in (`TemplatesUnlinked`).
-/

namespace StepTrace

namespace Store

/-- The listed steps are there, and no step is listed twice over. -/
structure StepsApart (s : Store) : Prop where
  has : ∀ {e}, s.Has e → ∀ {x}, x ∈ (s.content e).stepList → s.Has (.step x)
  same : ∀ {e e'}, s.Has e → s.Has e' → ∀ {x}, x ∈ (s.content e).stepList →
    x ∈ (s.content e').stepList → e = e'

/-- The templates of outlines are linked to nothing. -/
def TemplatesUnlinked (s : Store) : Prop :=
  ∀ o, s.Has (.outline o) → ∀ x ∈ (s.get o).steps, (s.get x).Unlinked

/-- If a step is registered under the identifier of one that runs, it is that one. -/
def Sole (s : Store) : Prop :=
  ∀ x ∈ s.runningSteps, ∀ y, s.catalog.find? (s.get x).id = some (.step y) → y = x

variable {s s' : Store}

/-! ## What changes keep -/

theorem stepsApart_empty : StepsApart {} := by
  have hnone : ∀ e, ¬ Has {} e := by
    intro e
    cases e <;> simp [Has, Arena.Holds]
  exact ⟨fun he => absurd he (hnone _), fun he => absurd he (hnone _)⟩

section

variable {named : String → Prop} {moves : Prop} {holder : Entry} {refs : List (Ref Step)}

/-- A step of a list after a change was there before, or has come to the one holder. -/
theorem mem_stepList_effect (h : Build.Effect named holder refs s s') {e : Entry} (he : s'.Has e)
    {x : Ref Step} (hx : x ∈ (s'.content e).stepList) :
    s.Has e ∧ x ∈ (s.content e).stepList ∨ e = holder ∧ x ∈ refs := by
  have hgained : x ∈ Build.gained holder refs e → e = holder ∧ x ∈ refs := by
    intro hx
    unfold Build.gained at hx
    split at hx
    · exact ⟨by assumption, hx⟩
    · cases hx
  by_cases hold : s.Has e
  · rw [(h.kept e hold).2.2, List.mem_append] at hx
    exact hx.imp (⟨hold, ·⟩) hgained
  · rw [(h.new e hold he).2.2] at hx
    exact .inr (hgained hx)

theorem StepsApart.change (hs : s.StepsApart) (hchange : Build.Change named moves s s') :
    s'.StepsApart := by
  obtain ⟨holder, refs, heffect, -, hnew⟩ := hchange.effect
  refine ⟨fun he x hx => ?_, fun he he' x hx hx' => ?_⟩
  · rcases mem_stepList_effect heffect he hx with ⟨hold, hx⟩ | ⟨-, hx⟩
    · exact heffect.has (hs.has hold hx)
    · exact (hnew x hx).2
  · rcases mem_stepList_effect heffect he hx with ⟨hold, hx⟩ | ⟨rfl, hx⟩
    · rcases mem_stepList_effect heffect he' hx' with ⟨hold', hx'⟩ | ⟨-, hx'⟩
      · exact hs.same hold hold' hx hx'
      · exact absurd (hs.has hold hx) (hnew x hx').1
    · rcases mem_stepList_effect heffect he' hx' with ⟨hold', hx'⟩ | ⟨rfl, -⟩
      · exact absurd (hs.has hold' hx') (hnew x hx).1
      · rfl

theorem TemplatesUnlinked.change (h : s.TemplatesUnlinked) (hs : s.StepsApart)
    (hchange : Build.Change named moves s s') : s'.TemplatesUnlinked := by
  obtain ⟨holder, refs, heffect, -, hnew⟩ := hchange.effect
  intro o ho x hx
  rcases mem_stepList_effect heffect ho hx with ⟨hold, hx⟩ | ⟨-, hx⟩
  · have hstep := (heffect.kept _ (hs.has hold hx)).2.1
    rw [show s'.get x = s.get x from Option.some.inj hstep]
    exact h o hold x hx
  · exact (heffect.new _ (hnew x hx).1 (hnew x hx).2).2.1 _ rfl

theorem StepsApart.changes (hs : s.StepsApart) (h : Build.Changes named moves s s') :
    s'.StepsApart :=
  h.preserves (fun _ _ hchange hs => hs.change hchange) hs

theorem TemplatesUnlinked.changes (h : s.TemplatesUnlinked) (hs : s.StepsApart)
    (hchanges : Build.Changes named moves s s') : s'.TemplatesUnlinked :=
  (hchanges.preserves (P := fun s => s.StepsApart ∧ s.TemplatesUnlinked)
    (fun _ _ hchange hs => ⟨hs.1.change hchange, hs.2.change hs.1 hchange⟩) ⟨hs, h⟩).2

end

theorem Content.stepList_of_bare {c c' : Content} (h : c'.bare = c.bare) :
    c'.stepList = c.stepList := by
  have hbare : ∀ c : Content, c.bare.stepList = c.stepList := by
    intro c
    cases c <;> rfl
  rw [← hbare, h, hbare]

theorem StepsApart.rewired (hs : s.StepsApart) (h : Rewired s s') : s'.StepsApart := by
  refine ⟨fun he x hx => ?_, fun he he' x hx hx' => ?_⟩
  · have hold := (h.has _).mp he
    rw [Content.stepList_of_bare (h.content hold)] at hx
    exact (h.has _).mpr (hs.has hold hx)
  · have hold := (h.has _).mp he
    have hold' := (h.has _).mp he'
    rw [Content.stepList_of_bare (h.content hold)] at hx
    rw [Content.stepList_of_bare (h.content hold')] at hx'
    exact hs.same hold hold' hx hx'

/-! ## Steps that run -/

/-- A step that runs is one of a scenario. -/
theorem Wellformed.runner (hs : s.Wellformed) {x : Ref Step} (hx : x ∈ s.runningSteps) :
    ∃ c, s.Has (.scenario c) ∧ x ∈ (s.get c).steps := by
  obtain ⟨r, hr, hx⟩ := List.mem_flatMap.mp hx
  obtain ⟨c, hc, hx⟩ := List.mem_flatMap.mp hx
  obtain ⟨id, -, hformed⟩ := hs.mem_allFeatures hr
  obtain ⟨cid, hscenario⟩ := hformed.stepContainer hc
  exact ⟨c, hscenario.formed.has, hx⟩

/-- No template of an outline runs. -/
theorem StepsApart.not_template (h : s.StepsApart) (hs : s.Wellformed) {x : Ref Step}
    (hx : x ∈ s.runningSteps) {o : Ref Outline} (ho : s.Has (.outline o)) :
    x ∉ (s.get o).steps := by
  obtain ⟨c, hc, hx⟩ := hs.runner hx
  intro hmem
  have hsame : Entry.scenario c = .outline o := h.same hc ho hx hmem
  cases hsame

/-- The steps that run are those of registered features, below their identifiers. -/
theorem Wellformed.mem_runningSteps (hs : s.Wellformed) {x : Ref Step} :
    x ∈ s.runningSteps ↔ ∃ id r, s.catalog.find? id = some (.feature r) ∧
      x ∈ s.containerSteps (s.stepContainers (s.get r)) := by
  simp only [runningSteps, List.mem_flatMap, Store.mem_allFeatures hs.consistent]
  constructor
  · rintro ⟨r, ⟨id, hid⟩, hx⟩
    exact ⟨id, r, hid, hx⟩
  · rintro ⟨id, r, hid, hx⟩
    exact ⟨r, ⟨id, hid⟩, hx⟩

theorem FeatureFormed.under {r : Ref Feature} {id : String} (h : s.FeatureFormed r id)
    {x : Ref Step} (hx : x ∈ s.containerSteps (s.stepContainers (s.get r))) :
    Under id (s.get x).id :=
  h.spread.inside (.step x) ((steps_sublist_featureParts s r).subset (List.mem_map_of_mem hx))

/-- What documents consist of stays, and with it the steps of a feature. -/
theorem Steady.containerSteps (h : Steady s s') {r : Ref Feature} {id : String}
    (hr : s.FeatureFormed r id) :
    s'.containerSteps (s'.stepContainers (s'.get r)) =
      s.containerSteps (s.stepContainers (s.get r)) := by
  rw [h.stepContainers hr]
  refine List.flatMap_congr fun c hc => ?_
  obtain ⟨cid, hscenario⟩ := hr.stepContainer hc
  rw [h.get_scenario hscenario.formed.has]

theorem Steady.step_id (h : Steady s s') {x : Ref Step} (hx : s.Has (.step x)) :
    (s'.get x).id = (s.get x).id := by
  have hid := congrArg Content.id (h _ hx trivial).2
  rwa [Content.unlinked_id, Content.unlinked_id] at hid

/-- A change that registers no documents. -/
theorem Sole.steady (h : s.Sole) (hs : s.Wellformed) (hs' : s'.Wellformed) (hsteady : Steady s s')
    (hold : ∀ {id e}, s'.catalog.find? id = some e → e.kind.IsDocument →
      s.catalog.find? id = some e) : s'.Sole := by
  intro x hx y hy
  obtain ⟨id, r, hid, hx⟩ := hs'.mem_runningSteps.mp hx
  have hr := hold hid trivial
  rw [hsteady.containerSteps (hs.formed hr).2] at hx
  have hrunning := hs.mem_runningSteps.mpr ⟨id, r, hr, hx⟩
  rw [hsteady.step_id (hs.has_step hrunning)] at hy
  exact h x hrunning y (hold hy trivial)

theorem Sole.documentLeft (h : s.Sole) (hs : s.Wellformed) {file : String}
    (hfile : FeatureEnding file) (hleft : Build.DocumentLeft file s s') : s'.Sole := by
  have hs' := hs.documentLeft hfile hleft
  rcases hleft with rfl | ⟨r, hbuilt⟩
  · exact h
  have hgrows := hbuilt.grows
  have hsteady : Steady s s' := hgrows.steady fun _ => False.elim
  intro x hx y hy
  obtain ⟨id, r', hid, hx⟩ := hs'.mem_runningSteps.mp hx
  rcases hgrows.catalog.find?_cases hid with hold | hnew | ⟨-, htag, -⟩
  · -- an old feature: what comes in lies below another file
    have hformed := (hs.formed hold).2
    rw [hsteady.containerSteps hformed] at hx
    have hrunning := hs.mem_runningSteps.mpr ⟨id, r', hold, hx⟩
    rw [hsteady.step_id (hs.has_step hrunning)] at hy
    rcases hgrows.catalog.find?_cases hy with hy | hin | ⟨-, htag, -⟩
    · exact h x hrunning y hy
    · obtain rfl : file = id := hfile.eq_of_under (hs.formed hold).1 (documentOf_under hin)
        (hformed.under hx)
      rw [hbuilt.placed.placed.find?] at hid
      cases hid
      exact absurd hformed.formed.has hbuilt.isNew
    · cases htag
  · rcases hnew with ⟨rfl, -⟩ | ⟨⟨-, hpart⟩, -⟩
    · rw [hbuilt.placed.placed.find?] at hid
      cases hid
      have hmem := (steps_sublist_featureParts s' r).subset (List.mem_map_of_mem hx)
      have hplaced := (hbuilt.placed.placed_parts (.step x) hmem).find?
      rw [show s'.idOf (.step x) = (s'.get x).id from rfl, hy] at hplaced
      exact Entry.step.inj (Option.some.inj hplaced)
    · exact hpart.elim
  · cases htag

/-- **A build keeps all this**, wherever the file lies and however it ends. -/
theorem Sole.apply (h : s.Sole) (hs : s.Wellformed) (call : BuildCall)
    (hfile : FeatureEnding call.file.toString) : (call.apply s).Sole := by
  have hensures : Build.Ensures
      (Build.feature call.file call.content call.excluded call.readMe) s Sole fun _ _ => True := by
    have honly : ∀ {s₁}, Build.OnlySpaces s s₁ → s₁.Wellformed ∧ s₁.Sole := by
      intro s₁ hgrown
      have hs₁ := hs.onlySpaces hgrown
      refine ⟨hs₁, h.steady hs hs₁ (hgrown.steady fun e he hkind => hkind.ne_nameSpace he) ?_⟩
      intro id e he hkind
      rcases hgrown.catalog.find?_cases he with he | hspace | ⟨-, htag, -⟩
      · exact he
      · exact absurd hspace hkind.ne_nameSpace
      · exact absurd htag hkind.ne_tag
    unfold Build.feature
    refine .bind_of (Build.site_only (fun _ => hs.root) call.file call.excluded call.readMe)
      (fun _ hgrown => (honly hgrown).2) fun x s₁ hgrown hname => ?_
    obtain ⟨hs₁, h₁⟩ := honly hgrown
    refine (Build.document_built s₁ x call.content).weaken ?_ fun _ _ _ _ => trivial
    intro s₂ hleft
    exact h₁.documentLeft hs₁ (hname ▸ hfile) hleft
  exact hensures.1

end Store

end StepTrace
