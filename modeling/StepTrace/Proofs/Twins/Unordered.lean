import StepTrace.Proofs.Linking.Reached
import StepTrace.Proofs.Twins.Exact

/-!
# Registries that are equal up to order

Two registries agree up to order if the same identifiers are registered, for records that are equal
but for the order in which tags list their owners and sites, and namespaces the features in them
(`Terms.unordered`).  What order two registries have for documents does not matter to anything, but
the order of definitions and transforms matters to linking; so `AgreeInTargets` says that these are
registered in the same order.

It stays so when the same targets are registered in both (`AgreeInTargets.registerTargets`), whatever
their identifiers are: what one of them displaces in the one registry, it displaces in the other.
-/

namespace StepTrace

open Store HeapRecord

/-! ## The terms -/

/-- The tags are equal but for the order of what is listed. -/
structure Tag.Alike (x y : Tag) : Prop where
  id : x.id = y.id
  name : x.name = y.name
  value : x.value = y.value
  owners : x.owners.Perm y.owners
  sites : x.sites.Perm y.sites
  totalScenarios : x.totalScenarios = y.totalScenarios

/-- The namespaces are equal but for the order of their features and for the places of their
children. -/
structure Namespace.SameTree (ρ : Pairing) (x y : Namespace) : Prop where
  id : x.id = y.id
  name : x.name = y.name
  parentId : x.parentId = y.parentId
  description : x.description = y.description
  featureIds : x.featureIds.Perm y.featureIds
  children : ∀ name, Option.Rel (fun a b => ρ (.nameSpace a) (.nameSpace b))
    (x.children.find? name) (y.children.find? name)

/-- Two registries agree on these terms if they are equal up to order. -/
def Terms.unordered : Terms where
  file _ := True
  part _ := True
  tag := Tag.Alike
  nameSpace := Namespace.SameTree
  links _ _ := True
  catalog ρ s t := ∀ id, Option.Rel ρ (s.catalog.find? id) (t.catalog.find? id)

section

variable {ρ σ : Pairing} {c c' d d' : Content}

theorem Namespace.SameTree.mono {x y : Namespace} (hle : ρ ≤ σ) (h : x.SameTree ρ y) :
    x.SameTree σ y := by
  refine ⟨h.id, h.name, h.parentId, h.description, h.featureIds, fun name => ?_⟩
  have hchild := h.children name
  generalize x.children.find? name = found, y.children.find? name = found' at hchild
  cases hchild with
  | some hab => exact .some (hle _ _ hab)
  | none => exact .none

theorem Content.Alike.unordered_mono (hle : ρ ≤ σ) (h : c.Alike .unordered ρ c') :
    c.Alike .unordered σ c' :=
  h.imp (Pairing.leParts_of_le hle) fun _ _ _ => Namespace.SameTree.mono hle

/-- Records whose links have changed are alike if the steps are. -/
theorem Content.Alike.of_bare (h : c.Alike .unordered ρ c') (hd : d.bare = c.bare)
    (hd' : d'.bare = c'.bare) (hstep : ∀ x y, d = .step x → d' = .step y → x.Alike ρ y) :
    d.Alike .unordered ρ d' := by
  cases h <;> cases d <;> first | cases hd; done | skip
  all_goals cases d' <;> first | cases hd'; done | skip
  case step.step.step => exact .step trivial (hstep _ _ rfl rfl)
  case definition.definition.definition h _ _ _ =>
    exact .definition ((Content.definition.inj hd).trans (h.trans (Content.definition.inj hd').symm))
      trivial
  case transform.transform.transform h _ _ _ =>
    exact .transform ((Content.transform.inj hd).trans (h.trans (Content.transform.inj hd').symm))
      trivial
  case nameSpace.nameSpace.nameSpace h _ _ =>
    exact Content.nameSpace.inj hd ▸ Content.nameSpace.inj hd' ▸ .nameSpace h
  case feature.feature.feature h _ _ =>
    exact Content.feature.inj hd ▸ Content.feature.inj hd' ▸ .feature trivial h
  case scenario.scenario.scenario h _ _ =>
    exact Content.scenario.inj hd ▸ Content.scenario.inj hd' ▸ .scenario trivial h
  case outline.outline.outline h _ _ =>
    exact Content.outline.inj hd ▸ Content.outline.inj hd' ▸ .outline trivial h
  case examples.examples.examples h _ _ =>
    exact Content.examples.inj hd ▸ Content.examples.inj hd' ▸ .examples trivial h
  case tag.tag.tag h _ _ => exact Content.tag.inj hd ▸ Content.tag.inj hd' ▸ .tag h

end

/-! ## What is registered -/

namespace Agree

variable {ρ : Pairing} {s s' : Store} (h : Agree .unordered ρ s s') {id : String} {e e' : Entry}
include h

theorem find?_rel (id : String) : Option.Rel ρ (s.catalog.find? id) (s'.catalog.find? id) :=
  h.catalog id

/-- What is registered in the one registry has a partner in the other. -/
theorem partner (he : s.catalog.find? id = some e) :
    ∃ e', s'.catalog.find? id = some e' ∧ ρ e e' := by
  have hrel := h.find?_rel id
  rw [he] at hrel
  generalize s'.catalog.find? id = found at hrel
  cases hrel with
  | some hee' => exact ⟨_, rfl, hee'⟩

theorem partner' (he' : s'.catalog.find? id = some e') :
    ∃ e, s.catalog.find? id = some e ∧ ρ e e' := by
  have hrel := h.find?_rel id
  rw [he'] at hrel
  generalize s.catalog.find? id = found at hrel
  cases hrel with
  | some hee' => exact ⟨_, rfl, hee'⟩

/-- Partners are registered under the same identifiers. -/
theorem find?_iff (he : ρ e e') : s.catalog.find? id = some e ↔ s'.catalog.find? id = some e' := by
  constructor
  · intro hid
    obtain ⟨e'', hid', he''⟩ := h.partner hid
    rwa [h.biUnique.2 he he'']
  · intro hid'
    obtain ⟨e'', hid, he''⟩ := h.partner' hid'
    rwa [h.biUnique.1 he he'']

/-- Registries agree as long as only links change and steps stay alike. -/
theorem rewired {s₁ s₁' : Store} (hr : Rewired s s₁) (hr' : Rewired s' s₁')
    (hstep : ∀ x x', ρ (.step x) (.step x') → (s₁.get x).Alike ρ (s₁'.get x')) :
    Agree .unordered ρ s₁ s₁' where
  biUnique := h.biUnique
  has he := ⟨(hr.has _).mpr (h.has he).1, (hr'.has _).mpr (h.has he).2⟩
  content := by
    intro e e' he
    have hkind := h.kind_eq he
    refine (h.content he).of_bare (hr.content (h.has he).1) (hr'.content (h.has he).2) ?_
    intro x y hx hy
    cases e <;> first | cases hx; done | skip
    cases e' <;> first | cases hy; done | skip
    cases hx
    cases hy
    exact hstep _ _ he
  catalog id := by
    rw [hr.catalog, hr'.catalog]
    exact h.find?_rel id

theorem register {α : Type} [Record α] [HeapRecord α] {x : α}
    (hx : (wrap x).Alike .unordered ρ (wrap x)) :
    Agree .unordered (ρ.and (Record.entry (s.register x).2) (Record.entry (s'.register x).2))
      (s.register x).1 (s'.register x).1 where
  biUnique := Pairing.biUnique_and h.biUnique
    (fun _ he => not_has_register_self s x (h.has he).1)
    fun _ he => not_has_register_self s' x (h.has he).2
  has := by
    rintro e e' (he | ⟨rfl, rfl⟩)
    · exact ⟨(has_register_iff s x e).mpr (.inl (h.has he).1),
        (has_register_iff s' x e').mpr (.inl (h.has he).2)⟩
    · exact ⟨has_register_self s x, has_register_self s' x⟩
  content := by
    rintro e e' (he | ⟨rfl, rfl⟩)
    · rw [content_register_of_has x (h.has he).1, content_register_of_has x (h.has he).2]
      exact (h.content he).unordered_mono (ρ.le_and _ _)
    · rw [content_entry, content_entry, get_register_self, get_register_self]
      exact hx.unordered_mono (ρ.le_and _ _)
  catalog id := by
    rw [catalog_register, catalog_register, Catalog.find?_insert, Catalog.find?_insert]
    split
    · exact .some (ρ.and_self _ _)
    · have hrel := h.find?_rel id
      generalize s.catalog.find? id = found, s'.catalog.find? id = found' at hrel
      cases hrel with
      | some he => exact .some (Or.inl he)
      | none => exact .none

end Agree

/-! ## Targets -/

/-- The registries agree up to order, and targets are registered in the same order. -/
structure AgreeInTargets (ρ : Pairing) (s s' : Store) : Prop extends Agree .unordered ρ s s' where
  index : ∀ kind : Kind, kind.IsTarget → (s.catalog.index kind).Match ρ (s'.catalog.index kind)

/-- What steps are linked to. -/
inductive Target where
  | definition (x : Definition)
  | transform (x : Transform)
deriving Repr, Inhabited

namespace Store

/-- The registry with a target registered. -/
def registerTarget (s : Store) : Target → Store
  | .definition x => (s.register x).1
  | .transform x => (s.register x).1

/-- The registry with the targets registered, one after the other. -/
def registerTargets (s : Store) (targets : List Target) : Store :=
  targets.foldl registerTarget s

/-- A target may take the place of anything. -/
theorem Wellformed.register {α : Type} [Record α] [HeapRecord α] {s : Store} (h : s.Wellformed)
    (x : α) (htarget : ∀ r : Ref α, (Record.entry r).kind.IsTarget) :
    (s.register x).1.Wellformed := by
  refine h.steady (steady_register s x) ?_ ?_ ?_
  · rw [catalog_register]
    exact h.consistent.insert _ _
  · intro id e he
    have hfind := he
    rw [catalog_register, Catalog.find?_insert] at hfind
    split at hfind
    · rename_i heq
      cases hfind
      exact heq ▸ placed_register s x
    · have hplaced := h.labelled hfind
      refine ⟨(has_register_iff s x _).mpr (Or.inl hplaced.has), ?_, he⟩
      rw [idOf_eq, content_register_of_has x hplaced.has, ← idOf_eq, hplaced.idOf]
  · intro id e he hkind
    rw [catalog_register, Catalog.find?_insert] at he
    split at he
    · cases he
      exact absurd (htarget _) hkind.not_isTarget
    · exact he

theorem Wellformed.registerTargets {s : Store} (h : s.Wellformed) (targets : List Target) :
    (s.registerTargets targets).Wellformed := by
  induction targets generalizing s with
  | nil => exact h
  | cons target targets ih =>
      refine ih ?_
      cases target with
      | definition x => exact h.register x fun _ => trivial
      | transform x => exact h.register x fun _ => trivial

end Store

namespace AgreeInTargets

variable {ρ : Pairing} {s s' : Store} (h : AgreeInTargets ρ s s')
include h

theorem register {α : Type} [Record α] [HeapRecord α] {x : α}
    (hx : (wrap x).Alike .unordered ρ (wrap x)) :
    ∃ σ, ρ ≤ σ ∧ AgreeInTargets σ (s.register x).1 (s'.register x).1 := by
  have hagree := h.toAgree.register hx
  refine ⟨_, ρ.le_and _ _, hagree, fun kind hkind => ?_⟩
  rw [catalog_register, catalog_register]
  refine Catalog.match_index_insert ((h.index kind hkind).imp (ρ.le_and _ _))
    (fun _ _ he => hagree.kind_eq he) ?_ (ρ.and_self _ _)
  have hrel := h.find?_rel (Record.id x)
  generalize s.catalog.find? _ = found, s'.catalog.find? _ = found' at hrel
  cases hrel with
  | some he => exact .some (Or.inl he)
  | none => exact .none

/-- **Registries that agree up to order still do so after the same targets have been registered.** -/
theorem registerTargets (targets : List Target) :
    ∃ σ, ρ ≤ σ ∧ AgreeInTargets σ (s.registerTargets targets) (s'.registerTargets targets) := by
  induction targets generalizing ρ s s' with
  | nil => exact ⟨ρ, le_refl ρ, h⟩
  | cons target targets ih =>
      have hfirst : ∃ σ, ρ ≤ σ ∧ AgreeInTargets σ (s.registerTarget target)
          (s'.registerTarget target) := by
        cases target with
        | definition x => exact h.register (.definition rfl trivial)
        | transform x => exact h.register (.transform rfl trivial)
      obtain ⟨σ, hle, h₁⟩ := hfirst
      obtain ⟨χ, hle', h₂⟩ := ih h₁
      exact ⟨χ, hle.trans hle', h₂⟩

end AgreeInTargets

end StepTrace
