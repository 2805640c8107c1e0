import StepTrace.Proofs.Identifier
import StepTrace.Proofs.OrderedMap
import StepTrace.Trace.Catalog

/-!
# What insertion and removal do to a catalog

A catalog is consistent if its two orders agree: an identifier stands in the order of exactly one
kind, that of the record that is registered under it.  Insertion and removal keep this, and on a
consistent catalog removal simply erases the identifier from every order.

`Catalog.Grows` says that a catalog has come from another one by registrations alone, each under an
identifier of a given region or, for a tag, under one that was free.  What lies outside the region
stays as it was: what is registered there, and its place in every order.
-/

namespace StepTrace.Catalog

/-- The order of all identifiers and the orders of the kinds agree. -/
structure Consistent (c : Catalog) : Prop where
  nodup : c.ids.Nodup
  nodup_index : ∀ kind, (c.index kind).keys.Nodup
  index_find? : ∀ {kind id entry},
    (c.index kind).find? id = some entry ↔ c.find? id = some entry ∧ entry.kind = kind

theorem consistent_empty : Consistent {} where
  nodup := List.nodup_nil
  nodup_index _ := List.nodup_nil
  index_find? := by
    intro kind id entry
    constructor
    · intro h
      cases h
    · rintro ⟨h, -⟩
      cases h

theorem Consistent.mem_ofKind {c : Catalog} (hc : c.Consistent) {kind : Kind} {entry : Entry} :
    entry ∈ c.ofKind kind ↔ ∃ id, c.find? id = some entry ∧ entry.kind = kind := by
  simp only [ofKind, OrderedMap.values, List.mem_map]
  constructor
  · rintro ⟨⟨id, entry⟩, hmem, rfl⟩
    exact ⟨id, hc.index_find?.mp (OrderedMap.find?_eq_some_of_mem (hc.nodup_index kind) hmem)⟩
  · rintro ⟨id, hfind⟩
    exact ⟨(id, entry), OrderedMap.mem_entries_of_find?_eq_some (hc.index_find?.mpr hfind), rfl⟩

/-- What is picked from the order of a kind is what is registered of that kind. -/
theorem Consistent.mem_filterMap_ofKind {c : Catalog} (hc : c.Consistent) {α : Type} {kind : Kind}
    (entry : α → Entry) {pick : Entry → Option α} (hpick : ∀ e x, pick e = some x ↔ e = entry x)
    (hkind : ∀ x, (entry x).kind = kind) {x : α} :
    x ∈ (c.ofKind kind).filterMap pick ↔ ∃ id, c.find? id = some (entry x) := by
  simp only [List.mem_filterMap, hpick, hc.mem_ofKind]
  constructor
  · rintro ⟨_, ⟨id, hid, -⟩, rfl⟩
    exact ⟨id, hid⟩
  · rintro ⟨id, hid⟩
    exact ⟨entry x, ⟨id, hid, hkind x⟩, rfl⟩

/-! ## Insertion -/

theorem index_insert_kinds (byKind : OrderedMap Kind (OrderedMap String Entry)) (kind other : Kind)
    (order : OrderedMap String Entry) :
    ((byKind.insert kind order).find? other).getD .empty =
      if other = kind then order else (byKind.find? other).getD .empty := by
  by_cases h : other = kind
  · rw [h, OrderedMap.find?_insert_self, if_pos rfl]
    rfl
  · rw [OrderedMap.find?_insert_of_ne _ h, if_neg h]

theorem index_unindex (c : Catalog) (kind other : Kind) (id : String) :
    (c.unindex kind id).index other =
      if other = kind then (c.index kind).erase id else c.index other :=
  index_insert_kinds c.byKind kind other _

@[simp] theorem entries_insert (c : Catalog) (id : String) (entry : Entry) :
    (c.insert id entry).entries = c.entries.insert id entry := by
  unfold insert
  split
  · split <;> rfl
  · rfl

theorem find?_insert_self (c : Catalog) (id : String) (entry : Entry) :
    (c.insert id entry).find? id = some entry := by
  rw [find?, entries_insert, OrderedMap.find?_insert_self]

theorem find?_insert_of_ne {c : Catalog} {id other : String} (entry : Entry) (h : other ≠ id) :
    (c.insert id entry).find? other = c.find? other := by
  rw [find?, entries_insert, OrderedMap.find?_insert_of_ne _ h, find?]

theorem find?_insert (c : Catalog) (id other : String) (entry : Entry) :
    (c.insert id entry).find? other = if other = id then some entry else c.find? other := by
  by_cases h : other = id
  · rw [h, find?_insert_self, if_pos rfl]
  · rw [find?_insert_of_ne entry h, if_neg h]

/-- The order of a kind after an insertion: the identifier joins its own kind and leaves the one
that it had. -/
theorem index_insert (c : Catalog) (id : String) (entry : Entry) (kind : Kind) :
    (c.insert id entry).index kind =
      if kind = entry.kind then (c.index kind).insert id entry
      else if (c.find? id).map Entry.kind = some kind then (c.index kind).erase id
      else c.index kind := by
  unfold insert
  by_cases hkind : kind = entry.kind
  · subst hkind
    rw [if_pos rfl]
    split
    · split
      · exact (index_insert_kinds ..).trans (if_pos rfl)
      · rename_i old _ hne
        refine (index_insert_kinds ..).trans ((if_pos rfl).trans ?_)
        rw [index_unindex, if_neg (Ne.symm hne)]
    · exact (index_insert_kinds ..).trans (if_pos rfl)
  · rw [if_neg hkind]
    split
    · rename_i old hold
      split
      · rename_i hsame
        refine (index_insert_kinds ..).trans ((if_neg hkind).trans ?_)
        have hne : ¬ (c.find? id).map Entry.kind = some kind := by
          rw [hold]
          rintro ⟨rfl⟩
          exact hkind hsame
        rw [if_neg hne]
        rfl
      · refine (index_insert_kinds ..).trans ((if_neg hkind).trans ?_)
        refine (index_unindex c old.kind kind id).trans ?_
        rw [hold]
        by_cases hk : kind = old.kind
        · subst hk
          simp
        · rw [if_neg hk, if_neg (by simpa using Ne.symm hk)]
    · rename_i hnone
      refine (index_insert_kinds ..).trans ((if_neg hkind).trans ?_)
      rw [hnone, if_neg (by simp)]
      rfl

theorem index_insert_self (c : Catalog) (id : String) (entry : Entry) :
    (c.insert id entry).index entry.kind = (c.index entry.kind).insert id entry := by
  rw [index_insert, if_pos rfl]

/-- On a consistent catalog the identifier is erased from the orders of all other kinds. -/
theorem Consistent.index_insert_of_ne {c : Catalog} (hc : c.Consistent) (id : String)
    {entry : Entry} {kind : Kind} (hkind : kind ≠ entry.kind) :
    (c.insert id entry).index kind = (c.index kind).erase id := by
  rw [index_insert, if_neg hkind]
  split
  · rfl
  · rename_i hother
    refine (OrderedMap.erase_of_not_mem ?_).symm
    rw [← OrderedMap.find?_eq_none_iff]
    cases hfind : (c.index kind).find? id with
    | none => rfl
    | some old =>
        obtain ⟨hold, hold'⟩ := hc.index_find?.mp hfind
        exact absurd (by rw [hold, Option.map_some, hold']) hother

theorem mem_ids_insert {c : Catalog} {id other : String} {entry : Entry} :
    other ∈ (c.insert id entry).ids ↔ other ∈ c.ids ∨ other = id := by
  rw [ids, entries_insert, OrderedMap.mem_keys_insert, ids]

theorem mem_ids_iff {c : Catalog} {id : String} : id ∈ c.ids ↔ ∃ entry, c.find? id = some entry := by
  rw [ids, ← OrderedMap.contains_iff, OrderedMap.contains, Option.isSome_iff_exists]
  rfl

theorem find?_eq_none_iff {c : Catalog} {id : String} : c.find? id = none ↔ id ∉ c.ids :=
  OrderedMap.find?_eq_none_iff

theorem Consistent.insert {c : Catalog} (hc : c.Consistent) (id : String) (entry : Entry) :
    (c.insert id entry).Consistent where
  nodup := by
    rw [ids, entries_insert]
    exact OrderedMap.nodup_keys_insert hc.nodup _ _
  nodup_index kind := by
    by_cases hkind : kind = entry.kind
    · subst hkind
      rw [index_insert_self]
      exact OrderedMap.nodup_keys_insert (hc.nodup_index _) _ _
    · rw [hc.index_insert_of_ne id hkind]
      exact OrderedMap.nodup_keys_erase (hc.nodup_index _) _
  index_find? := by
    intro kind other found
    by_cases hid : other = id
    · subst hid
      rw [find?_insert_self]
      by_cases hkind : kind = entry.kind
      · subst hkind
        rw [index_insert_self, OrderedMap.find?_insert_self]
        constructor
        · rintro ⟨rfl⟩
          exact ⟨rfl, rfl⟩
        · exact fun h => h.1
      · rw [hc.index_insert_of_ne _ hkind, OrderedMap.find?_erase_self]
        constructor
        · rintro ⟨⟩
        · rintro ⟨⟨rfl⟩, rfl⟩
          exact absurd rfl hkind
    · rw [find?_insert_of_ne entry hid, ← hc.index_find?]
      by_cases hkind : kind = entry.kind
      · subst hkind
        rw [index_insert_self, OrderedMap.find?_insert_of_ne _ hid]
      · rw [hc.index_insert_of_ne _ hkind, OrderedMap.find?_erase_of_ne hid]

theorem restrict_index_insert (c : Catalog) {keep : String → Bool} {id : String} (entry : Entry)
    (kind : Kind) (hid : keep id = false) :
    ((c.insert id entry).index kind).restrict keep = (c.index kind).restrict keep := by
  rw [index_insert]
  split
  · exact OrderedMap.restrict_insert _ entry hid
  · split
    · exact OrderedMap.restrict_erase _ hid
    · rfl

/-! ## Removal -/

theorem entries_remove (c : Catalog) (id : String) :
    (c.remove id).entries = c.entries.erase id := by
  unfold remove
  split
  · rfl
  · rename_i hnone
    exact (OrderedMap.erase_of_not_mem (find?_eq_none_iff.mp hnone)).symm

theorem Consistent.index_remove {c : Catalog} (hc : c.Consistent) (id : String) (kind : Kind) :
    (c.remove id).index kind = (c.index kind).erase id := by
  have habsent : (∀ entry, c.find? id = some entry → entry.kind ≠ kind) →
      c.index kind = (c.index kind).erase id := by
    intro h
    refine (OrderedMap.erase_of_not_mem ?_).symm
    rw [← OrderedMap.find?_eq_none_iff]
    cases hfind : (c.index kind).find? id with
    | none => rfl
    | some old =>
        obtain ⟨hold, hold'⟩ := hc.index_find?.mp hfind
        exact absurd hold' (h old hold)
  unfold remove
  split
  · rename_i entry hentry
    refine (index_unindex c entry.kind kind id).trans ?_
    by_cases hkind : kind = entry.kind
    · rw [if_pos hkind, hkind]
    · rw [if_neg hkind]
      refine habsent fun other hother => ?_
      rw [hentry] at hother
      cases hother
      exact Ne.symm hkind
  · rename_i hnone
    exact habsent fun entry hentry => by rw [hnone] at hentry; cases hentry

theorem find?_remove (c : Catalog) (id other : String) :
    (c.remove id).find? other = if other = id then none else c.find? other := by
  rw [find?, entries_remove]
  by_cases h : other = id
  · rw [h, OrderedMap.find?_erase_self, if_pos rfl]
  · rw [OrderedMap.find?_erase_of_ne h, if_neg h, find?]

theorem Consistent.remove {c : Catalog} (hc : c.Consistent) (id : String) :
    (c.remove id).Consistent where
  nodup := by
    rw [ids, entries_remove]
    exact OrderedMap.nodup_keys_erase hc.nodup _
  nodup_index kind := by
    rw [hc.index_remove]
    exact OrderedMap.nodup_keys_erase (hc.nodup_index _) _
  index_find? := by
    intro kind other found
    rw [hc.index_remove, find?_remove]
    by_cases hid : other = id
    · rw [hid, OrderedMap.find?_erase_self, if_pos rfl]
      simp
    · rw [OrderedMap.find?_erase_of_ne hid, if_neg hid]
      exact hc.index_find?

/-! ## Growth -/

/-- `c` with some more registrations: each under an identifier of the region for such a record, or
of a tag under an identifier that was free. -/
inductive Grows (region : String → Entry → Prop) (c : Catalog) : Catalog → Prop
  | refl : Grows region c c
  | insert {later : Catalog} {id : String} {entry : Entry} (earlier : Grows region c later)
      (allowed : region id entry ∨ IsTag id ∧ entry.kind = .tag ∧ later.find? id = none) :
      Grows region c (later.insert id entry)

namespace Grows

variable {region wider : String → Entry → Prop} {c later last : Catalog}

theorem mono (h : Grows region c later) (hregion : ∀ id entry, region id entry → wider id entry) :
    Grows wider c later := by
  induction h with
  | refl => exact .refl
  | insert _ allowed ih => exact .insert ih (allowed.imp_left (hregion _ _))

theorem trans (h : Grows region c later) (h' : Grows region later last) : Grows region c last := by
  induction h' with
  | refl => exact h
  | insert _ allowed ih => exact .insert ih allowed

/-- One registration in the region. -/
theorem single (c : Catalog) {id : String} {entry : Entry} (h : region id entry) :
    Grows region c (c.insert id entry) :=
  .insert .refl (Or.inl h)

theorem consistent (h : Grows region c later) (hc : c.Consistent) : later.Consistent := by
  induction h with
  | refl => exact hc
  | insert _ _ ih => exact ih.insert _ _

theorem mem_ids (h : Grows region c later) {id : String} (hid : id ∈ c.ids) : id ∈ later.ids := by
  induction h with
  | refl => exact hid
  | insert _ _ ih => exact mem_ids_insert.mpr (Or.inl ih)

/-- What is registered outside the region stays. -/
theorem find?_eq_some (h : Grows region c later) {id : String} {entry : Entry}
    (hid : ∀ other, ¬ region id other) (hentry : c.find? id = some entry) :
    later.find? id = some entry := by
  induction h with
  | refl => exact hentry
  | @insert later other _ _ allowed ih =>
      have hne : id ≠ other := by
        rintro rfl
        rcases allowed with hregion | ⟨-, -, hfree⟩
        · exact hid _ hregion
        · rw [ih] at hfree
          cases hfree
      rw [find?_insert_of_ne _ hne, ih]

/-- What is registered later was there, or is in the region, or is a new tag. -/
theorem find?_cases (h : Grows region c later) {id : String} {entry : Entry}
    (hentry : later.find? id = some entry) :
    c.find? id = some entry ∨ region id entry ∨
      IsTag id ∧ entry.kind = .tag ∧ c.find? id = none := by
  induction h with
  | refl => exact Or.inl hentry
  | @insert later other new earlier allowed ih =>
      rw [find?_insert] at hentry
      split at hentry
      · rename_i heq
        cases hentry
        subst heq
        rcases allowed with hregion | ⟨htag, hkind, hfree⟩
        · exact Or.inr (Or.inl hregion)
        · refine Or.inr (Or.inr ⟨htag, hkind, ?_⟩)
          rw [find?_eq_none_iff] at hfree ⊢
          exact fun hid => hfree (earlier.mem_ids hid)
      · exact ih hentry

/-- Among identifiers outside the region that were there, every order stays. -/
theorem restrict_eq (h : Grows region c later) {keep : String → Bool}
    (hkeep : ∀ id, keep id → id ∈ c.ids ∧ ∀ entry, ¬ region id entry) :
    later.entries.restrict keep = c.entries.restrict keep ∧
      ∀ kind, (later.index kind).restrict keep = (c.index kind).restrict keep := by
  induction h with
  | refl => exact ⟨rfl, fun _ => rfl⟩
  | @insert later id entry earlier allowed ih =>
      have hid : keep id = false := by
        by_contra hkept
        rw [Bool.not_eq_false] at hkept
        obtain ⟨hmem, hout⟩ := hkeep id hkept
        rcases allowed with hregion | ⟨-, -, hfree⟩
        · exact hout _ hregion
        · exact find?_eq_none_iff.mp hfree (earlier.mem_ids hmem)
      refine ⟨?_, fun kind => ?_⟩
      · rw [entries_insert, OrderedMap.restrict_insert _ _ hid, ih.1]
      · rw [restrict_index_insert _ _ _ hid, ih.2]

end Grows

end StepTrace.Catalog
