import StepTrace.Proofs.Registry.Builds
import StepTrace.Proofs.Registry.Preserved

/-!
# Registries of any feature files

A file below a directory that is called like the root namespace can have the name of a namespace, so
one may displace the other, or a part of the other's feature, in the registry.  What remains is that
every feature that is registered is formed (`Wellformed`): its parts need not be registered, but they
are there and have the identifiers of their positions, since nothing that comes later changes them
(`Steady`).
-/

namespace StepTrace

/-- The kinds of what documents consist of. -/
def Kind.IsDocument : Kind → Prop
  | .feature | .scenario | .outline | .examples | .step => True
  | _ => False

theorem Kind.IsDocument.not_isTarget {kind : Kind} (h : kind.IsDocument) : ¬ kind.IsTarget := by
  intro htarget
  cases kind <;> first | exact h | exact htarget

theorem Kind.IsDocument.ne_nameSpace {kind : Kind} (h : kind.IsDocument) : kind ≠ .nameSpace := by
  rintro rfl
  exact h

theorem Kind.IsDocument.ne_tag {kind : Kind} (h : kind.IsDocument) : kind ≠ .tag := by
  rintro rfl
  exact h

namespace Store

/-- What documents consist of stays what it is up to links, registered or not. -/
def Steady (s s' : Store) : Prop :=
  ∀ e, s.Has e → e.kind.IsDocument → s'.Has e ∧ (s'.content e).unlinked = (s.content e).unlinked

variable {s s' : Store} {id owner : String}

theorem Grows.steady {region : String → Entry → Prop} {hole : Entry → Prop}
    (h : Grows region hole s s') (hhole : ∀ e, hole e → ¬ e.kind.IsDocument) : Steady s s' := by
  intro e he hkind
  refine ⟨h.has he, ?_⟩
  rw [h.content_eq he (fun hin => hhole e hin hkind) hkind.ne_tag hkind.ne_nameSpace]

namespace Steady

theorem formed (h : Steady s s') {e : Entry} (he : s.Formed e id) (hkind : e.kind.IsDocument) :
    s'.Formed e id := by
  obtain ⟨hhas, hcontent⟩ := h e he.has hkind
  refine ⟨hhas, ?_⟩
  have hid := congrArg Content.id hcontent
  rw [Content.unlinked_id, Content.unlinked_id, ← idOf_eq, ← idOf_eq] at hid
  rw [hid, he.idOf]

variable (h : Steady s s')
include h

theorem get_feature {r : Ref Feature} (hr : s.Has (.feature r)) : s'.get r = s.get r :=
  Content.feature.inj (h _ hr trivial).2

theorem get_scenario {r : Ref Scenario} (hr : s.Has (.scenario r)) : s'.get r = s.get r :=
  Content.scenario.inj (h _ hr trivial).2

theorem get_outline {r : Ref Outline} (hr : s.Has (.outline r)) : s'.get r = s.get r :=
  Content.outline.inj (h _ hr trivial).2

theorem stepsFormed {steps : List (Ref Step)} (hsteps : s.StepsFormed owner steps) :
    s'.StepsFormed owner steps :=
  hsteps.mono fun _ _ _ hx => h.formed hx trivial

theorem scenarioFormed {r : Ref Scenario} (hr : s.ScenarioFormed r id) :
    s'.ScenarioFormed r id := by
  refine ⟨h.formed hr.formed trivial, ?_⟩
  rw [h.get_scenario hr.formed.has]
  exact h.stepsFormed hr.steps

theorem outlineFormed {r : Ref Outline} (hr : s.OutlineFormed r id) : s'.OutlineFormed r id := by
  have hsame := h.get_outline hr.formed.has
  refine ⟨h.formed hr.formed trivial, ?_, ?_, ?_⟩
  all_goals rw [hsame]
  · exact h.stepsFormed hr.steps
  · exact hr.examples.mono fun _ _ _ hx => h.formed hx trivial
  · exact hr.rows.mono fun _ _ _ hx => h.scenarioFormed hx

theorem featureFormed {r : Ref Feature} (hr : s.FeatureFormed r id) : s'.FeatureFormed r id := by
  have hsame := h.get_feature hr.formed.has
  refine ⟨h.formed hr.formed trivial, ?_, ?_⟩
  all_goals rw [hsame]
  · exact fun b hb => h.scenarioFormed (hr.background b hb)
  · refine hr.containers.mono fun _ c _ hc => ?_
    cases c with
    | scenario x => exact h.scenarioFormed hc
    | outline x => exact h.outlineFormed hc

theorem stepContainers {r : Ref Feature} (hr : s.FeatureFormed r id) :
    s'.stepContainers (s'.get r) = s.stepContainers (s.get r) := by
  rw [h.get_feature hr.formed.has, Store.stepContainers, Store.stepContainers]
  congr 1
  refine List.flatMap_congr fun c hc => ?_
  obtain ⟨i, hi⟩ := hr.containers.exists_of_mem hc
  cases c with
  | scenario x => rfl
  | outline x => exact congrArg Outline.scenarios (h.get_outline (OutlineFormed.formed hi).has)

end Steady

/-- The catalog is consistent, documents are registered below names of feature files, and every
registered feature is formed. -/
structure Wellformed (s : Store) : Prop where
  consistent : s.catalog.Consistent
  labelled : s.Labelled
  below : ∀ {id e}, s.catalog.find? id = some e → e.kind.IsDocument →
    ∃ file, FeatureEnding file ∧ Under file id
  formed : ∀ {id r}, s.catalog.find? id = some (.feature r) →
    FeatureEnding id ∧ s.FeatureFormed r id

theorem wellformed_empty : Wellformed {} where
  consistent := Catalog.consistent_empty
  labelled := nofun
  below := nofun
  formed := nofun

/-- An orderly registry is well-formed. -/
theorem Orderly.wellformed {files : String → Prop} {linked : Prop} (h : Orderly files linked s)
    (hfiles : ∀ file, files file → FeatureFile file) : s.Wellformed where
  consistent := h.consistent
  labelled := h.labelled
  below {id e} he hkind := by
    have hfits := h.fits he
    cases e
    case feature r => exact ⟨id, (hfiles id hfits).ending, .refl id⟩
    case scenario | outline | examples | step =>
      obtain ⟨file, hfile, hunder, -⟩ := hfits
      exact ⟨file, (hfiles file hfile).ending, hunder⟩
    all_goals exact False.elim hkind
  formed hr := ⟨(hfiles _ (h.fits hr)).ending, (h.placed hr).formed⟩

/-- A change that registers no documents. -/
theorem Wellformed.steady (h : s.Wellformed) (hsteady : Steady s s')
    (hc : s'.catalog.Consistent) (hlabelled : s'.Labelled)
    (hold : ∀ {id e}, s'.catalog.find? id = some e → e.kind.IsDocument →
      s.catalog.find? id = some e) : s'.Wellformed where
  consistent := hc
  labelled := hlabelled
  below he hkind := h.below (hold he hkind) hkind
  formed hr := by
    obtain ⟨hending, hformed⟩ := h.formed (hold hr trivial)
    exact ⟨hending, hsteady.featureFormed hformed⟩

theorem Wellformed.relinked (h : s.Wellformed) {linked : Prop} (hlinks : Relinked linked s s')
    (hsteady : Steady s s') : s'.Wellformed :=
  h.steady hsteady hlinks.consistent (hlinks.labelled h.labelled) fun he hkind =>
    hlinks.old he hkind.not_isTarget

/-! ## Builds -/

theorem Wellformed.onlySpaces (h : s.Wellformed) (hgrown : Build.OnlySpaces s s') :
    s'.Wellformed := by
  refine h.steady (hgrown.steady fun e he hkind => hkind.ne_nameSpace he)
    (hgrown.catalog.consistent h.consistent) (h.labelled.grows hgrown) ?_
  intro id e he hkind
  rcases hgrown.catalog.find?_cases he with he | hspace | ⟨-, htag, -⟩
  · exact he
  · exact absurd hspace hkind.ne_nameSpace
  · exact absurd htag hkind.ne_tag

theorem Wellformed.documentLeft (h : s.Wellformed) {file : String} (hfile : FeatureEnding file)
    (hleft : Build.DocumentLeft file s s') : s'.Wellformed := by
  rcases hleft with rfl | ⟨r, hbuilt⟩
  · exact h
  have hgrows := hbuilt.grows
  have hsteady : Steady s s' := hgrows.steady fun _ => False.elim
  refine ⟨hgrows.catalog.consistent h.consistent, h.labelled.grows hgrows, ?_, ?_⟩
  · intro id e he hkind
    rcases hgrows.catalog.find?_cases he with he | hnew | ⟨-, htag, -⟩
    · exact h.below he hkind
    · exact ⟨file, hfile, documentOf_under hnew⟩
    · exact absurd htag hkind.ne_tag
  · intro id r' hr'
    rcases hgrows.catalog.find?_cases hr' with hold | hnew | ⟨-, htag, -⟩
    · obtain ⟨hending, hformed⟩ := h.formed hold
      exact ⟨hending, hsteady.featureFormed hformed⟩
    · rcases hnew with ⟨rfl, -⟩ | ⟨⟨-, hpart⟩, -⟩
      · rw [hbuilt.placed.placed.find?] at hr'
        cases hr'
        exact ⟨hfile, hbuilt.placed.formed⟩
      · exact hpart.elim
    · cases htag

/-- The root is registered as a namespace, if at all, or as something without a description. -/
theorem Wellformed.root (h : s.Wellformed) {e : Entry}
    (he : s.catalog.find? rootNamespaceId = some e) : Build.SpaceOrBare e s := by
  have hnot : ¬ e.kind.IsDocument := by
    intro hkind
    obtain ⟨file, hfile, hunder⟩ := h.below he hkind
    exact hfile.ne_root hunder rfl
  cases e with
  | nameSpace => exact Or.inl rfl
  | feature | scenario | outline | examples => exact absurd trivial hnot
  | step | tag | definition | transform => exact Or.inr rfl

/-- **A build keeps a registry well-formed, wherever the file lies and however it ends.** -/
theorem Wellformed.apply (h : s.Wellformed) (call : BuildCall)
    (hfile : FeatureEnding call.file.toString) : (call.apply s).Wellformed := by
  have hensures : Build.Ensures
      (Build.feature call.file call.content call.excluded call.readMe) s Wellformed
        fun _ _ => True := by
    unfold Build.feature
    refine .bind ((Build.site_only (fun _ => h.root) call.file call.excluded
      call.readMe).weaken (fun _ hgrown => h.onlySpaces hgrown) fun _ _ _ => id) ?_
    intro x s₁ h₁ hname
    refine (Build.document_built s₁ x call.content).weaken ?_ fun _ _ _ _ => trivial
    intro s₂ hleft
    exact h₁.documentLeft (hname ▸ hfile) hleft
  exact hensures.1

/-! ## Steps of registered features -/

theorem Wellformed.mem_allFeatures (h : s.Wellformed) {r : Ref Feature} (hr : r ∈ s.allFeatures) :
    ∃ id, FeatureEnding id ∧ s.FeatureFormed r id := by
  obtain ⟨id, hid⟩ := (Store.mem_allFeatures h.consistent).mp hr
  exact ⟨id, h.formed hid⟩

end Store

end StepTrace
