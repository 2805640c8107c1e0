import StepTrace.Proofs.Catalog
import StepTrace.Trace.Snapshot

/-!
# The contents of a store

A store has one arena for each type of records.  Seen through entries it is one heap: `Store.Has`
says that an entry has been given out, and `Store.content` what stands there.  Every operation on a
record of some type is described once by what it does to this heap, for all types
(`HeapRecord`).
-/

namespace StepTrace

theorem Arena.modify_eq_self {α : Type} [Inhabited α] {a : Arena α} {r : Ref α} {f : α → α}
    (hr : a.Holds r) (hf : f (a.get r) = a.get r) : a.modify r f = a := by
  obtain ⟨records⟩ := a
  simp only [Holds] at hr
  have hget : get ⟨records⟩ r = records[r.index] := by simp [get, hr]
  rw [hget] at hf
  simp only [modify, mk.injEq]
  apply Array.ext
  · simp
  · intro i hi hi'
    rw [Array.getElem_modify]
    split
    · rename_i heq
      subst heq
      exact hf
    · rfl

theorem Arena.modify_congr {α : Type} [Inhabited α] {a : Arena α} {r : Ref α} {f g : α → α}
    (hfg : f (a.get r) = g (a.get r)) : a.modify r f = a.modify r g := by
  obtain ⟨records⟩ := a
  simp only [modify, mk.injEq]
  apply Array.ext
  · simp
  · intro i hi hi'
    rw [Array.getElem_modify, Array.getElem_modify]
    split
    · rename_i heq
      subst heq
      rw [Array.size_modify] at hi
      simpa [get, hi] using hfg
    · rfl

/-- A record of any type. -/
inductive Content where
  | nameSpace (x : Namespace)
  | feature (x : Feature)
  | scenario (x : Scenario)
  | outline (x : Outline)
  | examples (x : Examples)
  | step (x : Step)
  | tag (x : Tag)
  | definition (x : Definition)
  | transform (x : Transform)

/-- The identifier of a record. -/
def Content.id : Content → String
  | nameSpace x => x.id
  | feature x => x.id
  | scenario x => x.id
  | outline x => x.id
  | examples x => x.id
  | step x => x.id
  | tag x => x.id
  | definition x => x.id
  | transform x => x.id

/-- The tags that a record declares, if its type can declare any. -/
def Content.tags? : Content → Option (List (Ref Tag))
  | feature x => some x.tags
  | scenario x => some x.tags
  | outline x => some x.tags
  | examples x => some x.tags
  | _ => none

namespace Store

/-- The record at an entry. -/
def content (s : Store) : Entry → Content
  | .nameSpace r => .nameSpace (s.get r)
  | .feature r => .feature (s.get r)
  | .scenario r => .scenario (s.get r)
  | .outline r => .outline (s.get r)
  | .examples r => .examples (s.get r)
  | .step r => .step (s.get r)
  | .tag r => .tag (s.get r)
  | .definition r => .definition (s.get r)
  | .transform r => .transform (s.get r)

/-- Has the entry been given out? -/
def Has (s : Store) : Entry → Prop
  | .nameSpace r => s.namespaces.Holds r
  | .feature r => s.features.Holds r
  | .scenario r => s.scenarios.Holds r
  | .outline r => s.outlines.Holds r
  | .examples r => s.examples.Holds r
  | .step r => s.steps.Holds r
  | .tag r => s.tags.Holds r
  | .definition r => s.definitions.Holds r
  | .transform r => s.transforms.Holds r

theorem idOf_eq (s : Store) (entry : Entry) : s.idOf entry = (s.content entry).id := by
  cases entry <;> rfl

theorem tagsOf?_eq (s : Store) (entry : Entry) : s.tagsOf? entry = (s.content entry).tags? := by
  cases entry <;> rfl

theorem content_with_catalog (s : Store) (catalog : Catalog) (entry : Entry) :
    content { s with catalog } entry = s.content entry := by
  cases entry <;> rfl

theorem has_with_catalog (s : Store) (catalog : Catalog) (entry : Entry) :
    Has { s with catalog } entry ↔ s.Has entry := by
  cases entry <;> exact Iff.rfl

end Store

/-- A type of records as part of the heap of all records. -/
class HeapRecord (α : Type) [Record α] where
  wrap : α → Content
  wrap_injective : ∀ {x y : α}, wrap x = wrap y → x = y
  entry_injective : ∀ {r r' : Ref α}, Record.entry r = Record.entry r' → r = r'
  id_wrap : ∀ x, (wrap x).id = Record.id x := by
    intro _
    rfl
  content_entry : ∀ (s : Store) (r : Ref α), s.content (Record.entry r) = wrap (s.get r) := by
    intro _ _
    rfl
  has_entry : ∀ (s : Store) (r : Ref α),
      s.Has (Record.entry r) ↔ (Record.arena s).Holds r := by
    intro _ _
    rfl
  arena_setArena : ∀ (s : Store) (a : Arena α), Record.arena (Record.setArena s a) = a := by
    intro _ _
    rfl
  setArena_arena : ∀ s : Store, Record.setArena s (Record.arena s : Arena α) = s := by
    intro _
    rfl
  catalog_setArena : ∀ (s : Store) (a : Arena α), (Record.setArena s a).catalog = s.catalog := by
    intro _ _
    rfl
  content_setArena : ∀ (s : Store) (a : Arena α) (e : Entry), (∀ r : Ref α, e ≠ Record.entry r) →
      (Record.setArena s a).content e = s.content e := by
    intro _ _ e he
    cases e <;> first | rfl | exact absurd rfl (he _)
  has_setArena : ∀ (s : Store) (a : Arena α) (e : Entry), (∀ r : Ref α, e ≠ Record.entry r) →
      ((Record.setArena s a).Has e ↔ s.Has e) := by
    intro _ _ e he
    cases e <;> first | exact Iff.rfl | exact absurd rfl (he _)

instance : HeapRecord Namespace where
  wrap := .nameSpace
  wrap_injective := Content.nameSpace.inj
  entry_injective := Entry.nameSpace.inj

instance : HeapRecord Feature where
  wrap := .feature
  wrap_injective := Content.feature.inj
  entry_injective := Entry.feature.inj

instance : HeapRecord Scenario where
  wrap := .scenario
  wrap_injective := Content.scenario.inj
  entry_injective := Entry.scenario.inj

instance : HeapRecord Outline where
  wrap := .outline
  wrap_injective := Content.outline.inj
  entry_injective := Entry.outline.inj

instance : HeapRecord Examples where
  wrap := .examples
  wrap_injective := Content.examples.inj
  entry_injective := Entry.examples.inj

instance : HeapRecord Step where
  wrap := .step
  wrap_injective := Content.step.inj
  entry_injective := Entry.step.inj

instance : HeapRecord Tag where
  wrap := .tag
  wrap_injective := Content.tag.inj
  entry_injective := Entry.tag.inj

instance : HeapRecord Definition where
  wrap := .definition
  wrap_injective := Content.definition.inj
  entry_injective := Entry.definition.inj

instance : HeapRecord Transform where
  wrap := .transform
  wrap_injective := Content.transform.inj
  entry_injective := Entry.transform.inj

namespace Store

variable {α : Type} [Record α] [HeapRecord α]

open HeapRecord

theorem idOf_entry (s : Store) (r : Ref α) : s.idOf (Record.entry r) = Record.id (s.get r) := by
  rw [idOf_eq, content_entry, id_wrap]

/-- Records at the same place that are the same in the heap are the same. -/
theorem get_eq_of_content_eq {s s' : Store} {r : Ref α}
    (h : s'.content (Record.entry r) = s.content (Record.entry r)) : s'.get r = s.get r := by
  rw [content_entry, content_entry] at h
  exact wrap_injective h

/-! ## Changing a record -/

theorem content_modify_self (s : Store) (r : Ref α) (f : α → α)
    (hr : s.Has (Record.entry r)) :
    (s.modify r f).content (Record.entry r) = wrap (f (s.get r)) := by
  rw [content_entry]
  unfold Store.get Store.modify
  rw [arena_setArena, Arena.get_modify_self f ((has_entry s r).mp hr)]

theorem content_modify_of_ne (s : Store) (r : Ref α) (f : α → α) {e : Entry}
    (he : e ≠ Record.entry r) : (s.modify r f).content e = s.content e := by
  by_cases hsame : ∃ r' : Ref α, e = Record.entry r'
  · obtain ⟨r', rfl⟩ := hsame
    rw [content_entry, content_entry]
    unfold Store.get Store.modify
    rw [arena_setArena, Arena.get_modify_of_ne f fun heq => he (congrArg Record.entry heq)]
  · exact content_setArena s _ e fun r' heq => hsame ⟨r', heq⟩

theorem has_modify (s : Store) (r : Ref α) (f : α → α) (e : Entry) :
    (s.modify r f).Has e ↔ s.Has e := by
  by_cases hsame : ∃ r' : Ref α, e = Record.entry r'
  · obtain ⟨r', rfl⟩ := hsame
    rw [has_entry, has_entry]
    unfold Store.modify
    rw [arena_setArena]
    simp [Arena.Holds, Arena.modify]
  · exact has_setArena s _ e fun r' heq => hsame ⟨r', heq⟩

theorem catalog_modify (s : Store) (r : Ref α) (f : α → α) :
    (s.modify r f).catalog = s.catalog :=
  catalog_setArena s _

theorem get_modify_self (s : Store) (r : Ref α) (f : α → α) (hr : s.Has (Record.entry r)) :
    (s.modify r f).get r = f (s.get r) :=
  wrap_injective <| by rw [← content_entry, content_modify_self s r f hr]

/-- Changing a record to what it is changes nothing. -/
theorem modify_eq_self {s : Store} {r : Ref α} {f : α → α} (hr : s.Has (Record.entry r))
    (hf : f (s.get r) = s.get r) : s.modify r f = s := by
  unfold Store.modify
  rw [Arena.modify_eq_self ((has_entry s r).mp hr) hf, setArena_arena]

omit [HeapRecord α] in
/-- Only what the record is changed to matters. -/
theorem modify_congr {s : Store} {r : Ref α} {f g : α → α} (hfg : f (s.get r) = g (s.get r)) :
    s.modify r f = s.modify r g := by
  unfold Store.modify
  rw [Arena.modify_congr hfg]

/-! ## Adding a record -/

theorem content_add_self (s : Store) (x : α) :
    (s.add x).1.content (Record.entry (s.add x).2) = wrap x := by
  rw [content_entry]
  unfold Store.get Store.add
  rw [arena_setArena, Arena.get_add_self]

theorem get_add_self (s : Store) (x : α) : (s.add x).1.get (s.add x).2 = x :=
  wrap_injective <| by rw [← content_entry, content_add_self]

theorem content_add_of_has {s : Store} (x : α) {e : Entry} (he : s.Has e) :
    (s.add x).1.content e = s.content e := by
  by_cases hsame : ∃ r : Ref α, e = Record.entry r
  · obtain ⟨r, rfl⟩ := hsame
    rw [content_entry, content_entry]
    unfold Store.get Store.add
    rw [arena_setArena, Arena.get_add_of_holds x ((has_entry s r).mp he)]
  · exact content_setArena s _ e fun r heq => hsame ⟨r, heq⟩

theorem has_add_iff (s : Store) (x : α) (e : Entry) :
    (s.add x).1.Has e ↔ s.Has e ∨ e = Record.entry (s.add x).2 := by
  by_cases hsame : ∃ r : Ref α, e = Record.entry r
  · obtain ⟨r, rfl⟩ := hsame
    rw [has_entry, has_entry]
    have hnew : Record.entry r = Record.entry (s.add x).2 ↔ r = (s.add x).2 :=
      ⟨entry_injective, congrArg Record.entry⟩
    rw [hnew]
    unfold Store.add
    rw [arena_setArena]
    obtain ⟨index⟩ := r
    simp only [Arena.Holds, Arena.add, Array.size_push, Ref.mk.injEq]
    omega
  · have hne : e ≠ Record.entry (s.add x).2 := fun heq => hsame ⟨_, heq⟩
    rw [or_iff_left hne]
    exact has_setArena s _ e fun r heq => hsame ⟨r, heq⟩

theorem has_add_self (s : Store) (x : α) : (s.add x).1.Has (Record.entry (s.add x).2) :=
  (has_add_iff s x _).mpr (Or.inr rfl)

theorem not_has_add_self (s : Store) (x : α) : ¬ s.Has (Record.entry (s.add x).2) := by
  rw [has_entry]
  simp [Arena.Holds, Store.add, Arena.add]

theorem catalog_add (s : Store) (x : α) : (s.add x).1.catalog = s.catalog :=
  catalog_setArena s _

/-! ## Registering a record -/

omit [HeapRecord α] in
theorem content_enter (s : Store) (r : Ref α) (e : Entry) :
    (s.enter r).content e = s.content e :=
  content_with_catalog s _ e

omit [HeapRecord α] in
theorem has_enter (s : Store) (r : Ref α) (e : Entry) : (s.enter r).Has e ↔ s.Has e :=
  has_with_catalog s _ e

omit [HeapRecord α] in
theorem catalog_enter (s : Store) (r : Ref α) :
    (s.enter r).catalog = s.catalog.insert (Record.id (s.get r)) (Record.entry r) :=
  rfl

omit [HeapRecord α] in
theorem register_eq (s : Store) (x : α) :
    s.register x = ((s.add x).1.enter (s.add x).2, (s.add x).2) :=
  rfl

theorem get_register_self (s : Store) (x : α) : (s.register x).1.get (s.register x).2 = x := by
  apply wrap_injective
  rw [← content_entry, register_eq, content_enter, content_add_self]

theorem content_register_of_has {s : Store} (x : α) {e : Entry} (he : s.Has e) :
    (s.register x).1.content e = s.content e := by
  rw [register_eq, content_enter, content_add_of_has x he]

theorem has_register_iff (s : Store) (x : α) (e : Entry) :
    (s.register x).1.Has e ↔ s.Has e ∨ e = Record.entry (s.register x).2 := by
  rw [register_eq, has_enter, has_add_iff]

theorem has_register_self (s : Store) (x : α) :
    (s.register x).1.Has (Record.entry (s.register x).2) :=
  (has_register_iff s x _).mpr (Or.inr rfl)

theorem not_has_register_self (s : Store) (x : α) :
    ¬ s.Has (Record.entry (s.register x).2) :=
  not_has_add_self s x

theorem catalog_register (s : Store) (x : α) : (s.register x).1.catalog =
    s.catalog.insert (Record.id x) (Record.entry (s.register x).2) := by
  rw [register_eq, catalog_enter, get_add_self, catalog_add]

end Store

end StepTrace
