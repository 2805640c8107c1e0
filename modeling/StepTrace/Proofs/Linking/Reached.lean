import StepTrace.Proofs.Linking.Exact
import StepTrace.Proofs.Registry.Builds

/-!
# Linking any registry

A registry is reached by builds, by registering, changing and removing definitions and transforms,
and by earlier passes, in any order and whether they come to their end or not (`Reached`).  A pass
over it leaves the links of the specification, unless a step has been displaced in the registry whose
old links differ from these (`Reached.links`).

This cannot be if the files lie outside a directory that is called like the root namespace.  A file
below such a directory, however, can be called like a namespace, and so a namespace may take the
place of a step; the old link of the step then survives the next pass (`stale_link`).
-/

namespace StepTrace

open Store

namespace Store

variable {s : Store} {linked : Prop}

/-! ## Targets come, change and go -/

/-- Nothing but a definition or transform is registered under the identifier. -/
def Free (s : Store) (id : String) : Prop :=
  ∀ e, s.catalog.find? id = some e → e.kind.IsTarget

section

variable {α : Type} [Record α] [HeapRecord α]

theorem relinked_register (hc : s.catalog.Consistent) (hlabelled : s.Labelled) (hlinked : linked)
    (x : α) (htarget : ∀ r : Ref α, (Record.entry r).kind.IsTarget) (hfree : s.Free (Record.id x)) :
    Relinked linked s (s.register x).1 := by
  have hfind : ∀ id, (s.register x).1.catalog.find? id =
      if id = Record.id x then some (Record.entry (s.register x).2) else s.catalog.find? id := by
    intro id
    rw [catalog_register, Catalog.find?_insert]
  have hpreserves : Preserves s (s.register x).1 := by
    constructor
    case find? =>
      intro id e he hkind
      have hne : id ≠ Record.id x := by
        rintro rfl
        exact hkind (hfree e he)
      rw [hfind, if_neg hne, he]
    case has => exact fun he _ => (has_register_iff s x _).mpr (Or.inl (hlabelled he).has)
    case content => exact fun he _ => by rw [content_register_of_has x (hlabelled he).has]
  constructor
  case toPreserves => exact hpreserves
  case consistent =>
    rw [catalog_register]
    exact hc.insert _ _
  case old =>
    intro id e he hkind
    rw [hfind] at he
    split at he
    · cases he
      exact absurd (htarget _) hkind
    · exact he
  case target =>
    intro id e he _
    rw [hfind] at he
    split at he
    · rename_i heq
      cases he
      rw [heq]
      exact ⟨hlinked, placed_register s x⟩
    · have hplaced := hlabelled he
      refine ⟨hlinked, (has_register_iff s x _).mpr (Or.inl hplaced.has), ?_, ?_⟩
      · rw [idOf_eq, content_register_of_has x hplaced.has, ← idOf_eq, hplaced.idOf]
      · rw [hfind, if_neg (by assumption), he]

theorem steady_register (s : Store) (x : α) : Steady s (s.register x).1 :=
  fun e he _ => ⟨(has_register_iff s x e).mpr (Or.inl he), by rw [content_register_of_has x he]⟩

theorem unlinked_modify (r : Ref α) {f : α → α}
    (hf : ∀ x, (HeapRecord.wrap (f x)).unlinked = (HeapRecord.wrap x).unlinked) {e : Entry}
    (he : s.Has e) : ((s.modify r f).content e).unlinked = (s.content e).unlinked := by
  by_cases heq : e = Record.entry r
  · subst heq
    rw [content_modify_self s r f he, hf, ← HeapRecord.content_entry]
  · rw [content_modify_of_ne s r f heq]

theorem steady_modify (s : Store) (r : Ref α) {f : α → α}
    (hf : ∀ x, (HeapRecord.wrap (f x)).unlinked = (HeapRecord.wrap x).unlinked) :
    Steady s (s.modify r f) :=
  fun e he _ => ⟨(has_modify s r f e).mpr he, unlinked_modify r hf he⟩

theorem relinked_modify (hc : s.catalog.Consistent) (hlabelled : s.Labelled) (hlinked : linked)
    (r : Ref α) {f : α → α}
    (hf : ∀ x, (HeapRecord.wrap (f x)).unlinked = (HeapRecord.wrap x).unlinked) :
    Relinked linked s (s.modify r f) := by
  have hpreserves : Preserves s (s.modify r f) := by
    constructor
    case find? => exact fun he _ => by rwa [catalog_modify]
    case has => exact fun he _ => (has_modify s r f _).mpr (hlabelled he).has
    case content => exact fun he _ => unlinked_modify r hf (hlabelled he).has
  constructor
  case toPreserves => exact hpreserves
  case consistent => rwa [catalog_modify]
  case old => exact fun he _ => by rwa [catalog_modify] at he
  case target =>
    intro id e he _
    rw [catalog_modify] at he
    have hplaced := hlabelled he
    have hid := congrArg Content.id (unlinked_modify r hf hplaced.has)
    rw [Content.unlinked_id, Content.unlinked_id, ← idOf_eq, ← idOf_eq] at hid
    exact ⟨hlinked, (has_modify s r f _).mpr hplaced.has, hid.trans hplaced.idOf,
      by rwa [catalog_modify]⟩

end

theorem relinked_remove (hc : s.catalog.Consistent) (hlabelled : s.Labelled) (hlinked : linked)
    {id : String} (hfree : s.Free id) : Relinked linked s (s.remove id) := by
  have hfind : ∀ id', (s.remove id).catalog.find? id' =
      if id' = id then none else s.catalog.find? id' := Catalog.find?_remove s.catalog id
  have hcontent : ∀ e, (s.remove id).content e = s.content e := content_with_catalog s _
  have hhas : ∀ e, (s.remove id).Has e ↔ s.Has e := has_with_catalog s _
  have hpreserves : Preserves s (s.remove id) := by
    constructor
    case find? =>
      intro id' e he hkind
      have hne : id' ≠ id := by
        rintro rfl
        exact hkind (hfree e he)
      rw [hfind, if_neg hne, he]
    case has => exact fun he _ => (hhas _).mpr (hlabelled he).has
    case content => exact fun _ _ => by rw [hcontent]
  constructor
  case toPreserves => exact hpreserves
  case consistent => exact hc.remove id
  case old =>
    intro id' e he _
    rw [hfind] at he
    split at he
    · cases he
    · exact he
  case target =>
    intro id' e he _
    have hold := he
    rw [hfind] at hold
    split at hold
    · cases hold
    · have hplaced := hlabelled hold
      exact ⟨hlinked, (hhas _).mpr hplaced.has, by rw [idOf_eq, hcontent, ← idOf_eq, hplaced.idOf],
        he⟩

theorem steady_remove (s : Store) (id : String) : Steady s (s.remove id) :=
  fun e he _ => ⟨(has_with_catalog s _ e).mpr he, by rw [remove, content_with_catalog]⟩

end Store

/-! ## Reached registries -/

/-- The path of any feature file, wherever it lies. -/
structure IsFeaturePath (p : Path) : Prop where
  proper : p.Proper
  ending : ".feature".toList <:+ p.toString.toList

/-- The registries that are reached from the empty one; of the builds so far the files are listed,
which are different paths of the given sort. -/
inductive Reached (paths : Path → Prop) : List Path → Store → Prop
  | empty : Reached paths [] {}
  | build {built : List Path} {s : Store} (h : Reached paths built s) (call : BuildCall)
      (hpath : paths call.file) (hnew : call.file ∉ built) :
      Reached paths (call.file :: built) (call.apply s)
  | define {built : List Path} {s : Store} (h : Reached paths built s) (d : Definition)
      (hfree : s.Free d.id) : Reached paths built (s.register d).1
  | convert {built : List Path} {s : Store} (h : Reached paths built s) (t : Transform)
      (hfree : s.Free t.id) : Reached paths built (s.register t).1
  | definitionPattern {built : List Path} {s : Store} (h : Reached paths built s)
      (d : Ref Definition) (pattern : Value) :
      Reached paths built (s.modify d fun x => { x with pattern })
  | transformPattern {built : List Path} {s : Store} (h : Reached paths built s)
      (t : Ref Transform) (pattern : Value) :
      Reached paths built (s.modify t fun x => { x with pattern })
  | remove {built : List Path} {s : Store} (h : Reached paths built s) (id : String)
      (hfree : s.Free id) : Reached paths built (s.remove id)
  | link {built : List Path} {s : Store} (h : Reached paths built s) (warnings : List Warning) :
      Reached paths built (LinkingPass.linkAll.run { store := s, warnings }).2.store

namespace Reached

variable {built : List Path} {s : Store}

/-- Only the paths that have been built matter. -/
theorem restrict {paths paths' : Path → Prop} (h : Reached paths built s)
    (hbuilt : ∀ p ∈ built, paths' p) : Reached paths' built s := by
  induction h with
  | empty => exact .empty
  | build h call hpath hnew ih =>
      exact .build (ih fun p hp => hbuilt p (List.mem_cons_of_mem _ hp)) call
        (hbuilt _ (List.mem_cons_self ..)) hnew
  | define h d hfree ih => exact .define (ih hbuilt) d hfree
  | convert h t hfree ih => exact .convert (ih hbuilt) t hfree
  | definitionPattern h d pattern ih => exact .definitionPattern (ih hbuilt) d pattern
  | transformPattern h t pattern ih => exact .transformPattern (ih hbuilt) t pattern
  | remove h id hfree ih => exact .remove (ih hbuilt) id hfree
  | link h warnings ih => exact .link (ih hbuilt) warnings

/-- **Every reached registry is well-formed.** -/
theorem wellformed (h : Reached IsFeaturePath built s) : s.Wellformed := by
  induction h with
  | empty => exact wellformed_empty
  | build h call hpath hnew ih =>
      obtain ⟨stem, hstem⟩ := hpath.ending
      exact ih.apply call ⟨stem, hstem.symm⟩
  | define h d hfree ih =>
      have hlinks : Relinked True _ _ := relinked_register ih.consistent ih.labelled trivial d
        (fun _ => trivial) hfree
      exact ih.relinked hlinks (steady_register _ d)
  | convert h t hfree ih =>
      have hlinks : Relinked True _ _ := relinked_register ih.consistent ih.labelled trivial t
        (fun _ => trivial) hfree
      exact ih.relinked hlinks (steady_register _ t)
  | definitionPattern h d pattern ih =>
      have hlinks : Relinked True _ _ := relinked_modify ih.consistent ih.labelled trivial d
        (f := fun x => { x with pattern }) fun _ => rfl
      exact ih.relinked hlinks (steady_modify _ d fun _ => rfl)
  | transformPattern h t pattern ih =>
      have hlinks : Relinked True _ _ := relinked_modify ih.consistent ih.labelled trivial t
        (f := fun x => { x with pattern }) fun _ => rfl
      exact ih.relinked hlinks (steady_modify _ t fun _ => rfl)
  | remove h id hfree ih =>
      have hlinks : Relinked True _ _ := relinked_remove ih.consistent ih.labelled trivial hfree
      exact ih.relinked hlinks (steady_remove _ id)
  | @link _ s h warnings ih =>
      have hrewired := LinkingPass.linkAll_rewired { store := s, warnings }
      exact ih.relinked (hrewired.relinked ih.consistent ih.labelled) hrewired.steady

/-- **It is orderly if no file lies below a directory that is called like the root namespace.** -/
theorem orderly (h : Reached FeaturePath built s) : Orderly PathName True s := by
  induction h with
  | empty => exact orderly_empty
  | build h call hpath hnew ih =>
      have hfiles : ∀ file, PathName file → FeatureFile file := fun _ => PathName.featureFile
      exact ih.featureLeft hfiles ⟨_, hpath, rfl⟩ (call.apply_left ih.toSorted hfiles hpath)
  | define h d hfree ih =>
      exact ih.relinked (relinked_register ih.consistent ih.labelled trivial d (fun _ => trivial) hfree)
  | convert h t hfree ih =>
      exact ih.relinked (relinked_register ih.consistent ih.labelled trivial t (fun _ => trivial) hfree)
  | definitionPattern h d pattern ih =>
      exact ih.relinked (relinked_modify ih.consistent ih.labelled trivial d fun _ => rfl)
  | transformPattern h t pattern ih =>
      exact ih.relinked (relinked_modify ih.consistent ih.labelled trivial t fun _ => rfl)
  | remove h id hfree ih =>
      exact ih.relinked (relinked_remove ih.consistent ih.labelled trivial hfree)
  | @link _ s h warnings ih =>
      have hrewired := LinkingPass.linkAll_rewired { store := s, warnings }
      exact ih.relinked (hrewired.relinked ih.consistent ih.labelled)

/-- **A pass over a registry that builds, definitions, transforms and earlier passes have left comes
to its end.  It links the steps as specified if and only if no running step that is displaced has an
old link in the way, and so always if no file lies below a directory that is called like the root
namespace.** -/
theorem links (h : Reached IsFeaturePath built s) (htexts : StepsAreTexts s)
    (hpatterns : PatternsReadable s) (warnings : List Warning) :
    ∃ report w, LinkingPass.linkAll.run { store := s, warnings } = (.ok report, w) ∧
      PassDone s w.store report ∧
      (ExactlyLinked s w.store report ↔ ∀ x ∈ s.runningSteps, x ∉ s.allSteps → s.Harmless x) ∧
      ((∀ p ∈ built, FeaturePath p) → ExactlyLinked s w.store report) := by
  obtain ⟨report, w, hrun, hdone, hiff⟩ :=
    LinkingPass.linkAll_links h.wellformed htexts hpatterns warnings
  refine ⟨report, w, hrun, hdone, hiff, fun hbuilt => ?_⟩
  have horderly := (h.restrict hbuilt).orderly
  exact hiff.mpr fun x hx hout => absurd (horderly.mem_allSteps hx) hout

end Reached

/-! ## Two registries -/

private def greetingDocument (text : String) : Value :=
  .ofFields [("feature", .ofFields [("children", .list [.ofFields [("background", .ofFields [
    ("steps", .list [.ofFields [("keyword", .text "Given "), ("text", .text text)]])])]])])]

/-- A registry with one step and one definition, linked once. -/
private def greeted (file pattern : String) : Store :=
  (LinkingPass.linkAll.run { store :=
    ((BuildCall.mk (.ofString file) (greetingDocument "hello world") [] none).apply {}
      |>.register { id := "d", keyword := "Given", pattern := .text pattern : Definition }).1 }).2.store

private theorem reached_greeted {paths : Path → Prop} (file pattern : String)
    (hpath : paths (.ofString file))
    (hfree : ((BuildCall.mk (.ofString file) (greetingDocument "hello world") [] none).apply
      {}).catalog.find? "d" = none) :
    Reached paths [.ofString file] (greeted file pattern) := by
  refine .link (.define (.build .empty ⟨.ofString file, greetingDocument "hello world", [], none⟩
    hpath List.not_mem_nil) _ ?_) []
  intro e he
  rw [hfree] at he
  cases he

/-- After a change of the pattern and of what it captures. -/
private def regreeted : Store :=
  (((greeted "shop/greet.feature" "hello").register
    { id := "t", keyword := "Transform", pattern := .text "^w" : Transform }).1).modify
      (⟨0⟩ : Ref Definition) fun d => { d with pattern := .text "hello (.*)" }

theorem links_regreeted : ∃ report w, LinkingPass.linkAll.run { store := regreeted } =
    (.ok report, w) ∧ ExactlyLinked regreeted w.store report := by
  have hpath : FeaturePath (.ofString "shop/greet.feature") :=
    (plainPath_ofString (by decide) (by decide)).toFeaturePath
  have hreached : Reached IsFeaturePath [.ofString "shop/greet.feature"] regreeted := by
    have hgreeted : Reached IsFeaturePath _ (greeted "shop/greet.feature" "hello") :=
      reached_greeted _ _ ⟨hpath.proper, hpath.ending⟩ (by decide +kernel)
    refine .definitionPattern (.convert hgreeted _ ?_) _ _
    intro e he
    have hnone : (greeted "shop/greet.feature" "hello").catalog.find? "t" = none := by decide +kernel
    rw [show (greeted "shop/greet.feature" "hello").catalog.find? "t" = some e from he] at hnone
    cases hnone
  have hrunning : regreeted.runningSteps = [⟨0⟩] := by decide +kernel
  have htexts : StepsAreTexts regreeted := by
    intro x hx
    rw [hrunning, List.mem_singleton] at hx
    exact ⟨"hello world", by rw [hx]; exact Value.isText_iff.mp (by decide +kernel)⟩
  obtain ⟨report, w, hrun, -, -, hplain⟩ :=
    hreached.links htexts ⟨by decide +kernel, by decide +kernel⟩ []
  refine ⟨report, w, hrun, hplain fun p hp => ?_⟩
  rw [List.mem_singleton.mp hp]
  exact hpath

/-- After a build for a directory that is called like the step, and a change of the pattern. -/
private def overgrown : Store :=
  ((BuildCall.mk (.ofString "x.feature:background:step_1/y.feature") (.ofFields [("feature", .null)])
    [] none).apply (greeted "requirements/x.feature" "hello")).modify
      (⟨0⟩ : Ref Definition) fun d => { d with pattern := .text "goodbye" }

/-- **The old link of a step survives** a pass where a namespace has taken its place. -/
theorem stale_link : ¬ ∀ built s, Reached IsFeaturePath built s → StepsAreTexts s →
    PatternsReadable s → ∀ warnings, ∃ report w,
      LinkingPass.linkAll.run { store := s, warnings } = (.ok report, w) ∧
        ExactlyLinked s w.store report := by
  intro h
  have hpath : IsFeaturePath (.ofString "requirements/x.feature") :=
    ⟨Path.proper_ofString _, by decide⟩
  have hreached : Reached IsFeaturePath
      [.ofString "x.feature:background:step_1/y.feature", .ofString "requirements/x.feature"]
      overgrown := by
    refine .definitionPattern (.build (reached_greeted _ _ hpath (by decide +kernel))
      ⟨.ofString "x.feature:background:step_1/y.feature", .ofFields [("feature", .null)], [], none⟩
      ⟨Path.proper_ofString _, by decide⟩ (by decide)) _ _
  have hrunning : overgrown.runningSteps = [⟨0⟩] := by decide +kernel
  have htexts : StepsAreTexts overgrown := by
    intro x hx
    rw [hrunning, List.mem_singleton] at hx
    exact ⟨"hello world", by rw [hx]; exact Value.isText_iff.mp (by decide +kernel)⟩
  obtain ⟨report, w, hrun, hexactly⟩ := h _ _ hreached htexts
    ⟨by decide +kernel, by decide +kernel⟩ []
  have hdefinition := (hexactly.running ⟨0⟩ (by rw [hrunning]; exact List.mem_singleton_self _)).1
  have hnone : overgrown.definitionOf? ⟨0⟩ = none := by decide +kernel
  have hstale : (((LinkingPass.linkAll.run { store := overgrown }).2.store.get
      (⟨0⟩ : Ref Step)).definition).isSome = true := by decide +kernel
  rw [hrun, hdefinition, hnone] at hstale
  cases hstale

end StepTrace
