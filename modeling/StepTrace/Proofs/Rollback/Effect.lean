import StepTrace.Proofs.Registry.Invariant
import StepTrace.Trace.Snapshot

/-!
# What going back does

Going back to a snapshot takes every identifier out that the snapshot does not know, then cuts the
remaining tags and namespaces back to their marks.  It comes to its end if every one of these has a
mark (`rollback_run`); what it leaves is described by `RolledBack`.

Tags and namespaces are cut back by one loop, `restoreAll`, with their own marks.
-/

namespace StepTrace

/-! ## Taking identifiers out -/

namespace Catalog

theorem entries_foldl_remove (ids : List String) (c : Catalog) :
    (ids.foldl remove c).entries = ids.foldl OrderedMap.erase c.entries := by
  induction ids generalizing c with
  | nil => rfl
  | cons id ids ih => rw [List.foldl_cons, ih, entries_remove, List.foldl_cons]

theorem Consistent.foldl_remove {c : Catalog} (hc : c.Consistent) (ids : List String) :
    (ids.foldl Catalog.remove c).Consistent := by
  induction ids generalizing c with
  | nil => exact hc
  | cons id ids ih => exact ih (hc.remove id)

theorem Consistent.index_foldl_remove {c : Catalog} (hc : c.Consistent) (ids : List String)
    (kind : Kind) : (ids.foldl Catalog.remove c).index kind =
      ids.foldl OrderedMap.erase (c.index kind) := by
  induction ids generalizing c with
  | nil => rfl
  | cons id ids ih => rw [List.foldl_cons, ih (hc.remove id), hc.index_remove, List.foldl_cons]

/-- What is in the order of a kind is registered. -/
theorem Consistent.mem_ids_of_mem_index {c : Catalog} (hc : c.Consistent) {kind : Kind}
    {id : String} (h : id ∈ (c.index kind).keys) : id ∈ c.ids := by
  obtain ⟨⟨_, entry⟩, hentry, rfl⟩ := List.mem_map.mp h
  have hfind := OrderedMap.find?_eq_some_of_mem (hc.nodup_index kind) hentry
  exact mem_ids_iff.mpr ⟨entry, (hc.index_find?.mp hfind).1⟩

/-- The catalog without the identifiers that are not in the list. -/
def keepOnly (c : Catalog) (ids : List String) : Catalog :=
  (c.ids.filter fun id => id ∉ ids).foldl remove c

variable {c : Catalog} {ids : List String}

theorem entries_keepOnly (c : Catalog) (ids : List String) :
    (c.keepOnly ids).entries.entries = c.entries.restrict (· ∈ ids) := by
  rw [keepOnly, entries_foldl_remove, OrderedMap.entries_foldl_erase]
  apply List.filter_congr
  intro entry hentry
  have hid : entry.1 ∈ c.ids := List.mem_map_of_mem hentry
  simp [hid]

theorem Consistent.index_keepOnly (hc : c.Consistent) (ids : List String) (kind : Kind) :
    ((c.keepOnly ids).index kind).entries = (c.index kind).restrict (· ∈ ids) := by
  rw [keepOnly, hc.index_foldl_remove, OrderedMap.entries_foldl_erase]
  apply List.filter_congr
  intro entry hentry
  have hid : entry.1 ∈ c.ids := hc.mem_ids_of_mem_index (List.mem_map_of_mem hentry)
  simp [hid]

theorem Consistent.keepOnly (hc : c.Consistent) (ids : List String) :
    (c.keepOnly ids).Consistent :=
  hc.foldl_remove _

theorem Consistent.find?_keepOnly (hc : c.Consistent) {id : String} {e : Entry} :
    (c.keepOnly ids).find? id = some e ↔ c.find? id = some e ∧ id ∈ ids := by
  have hkeep := (hc.keepOnly ids).nodup
  rw [find?, OrderedMap.find?_eq_some_iff hkeep, entries_keepOnly, OrderedMap.mem_restrict,
    ← OrderedMap.find?_eq_some_iff hc.nodup, decide_eq_true_iff, ← find?]

/-- Nothing is taken out if all is known. -/
theorem keepOnly_eq_self (h : ∀ id ∈ c.ids, id ∈ ids) : c.keepOnly ids = c := by
  have hnone : c.ids.filter (fun id => id ∉ ids) = [] := by
    rw [List.filter_eq_nil_iff]
    intro id hid
    simpa using h id hid
  rw [keepOnly, hnone, List.foldl_nil]

end Catalog

namespace Store

theorem foldl_remove (ids : List String) (s : Store) :
    ids.foldl remove s = { s with catalog := ids.foldl Catalog.remove s.catalog } := by
  induction ids generalizing s with
  | nil => rfl
  | cons id ids ih => rw [List.foldl_cons, ih, List.foldl_cons, remove]

theorem mem_allTags {s : Store} (hc : s.catalog.Consistent) {t : Ref Tag} :
    t ∈ s.allTags ↔ ∃ id, s.catalog.find? id = some (.tag t) := by
  rw [allTags]
  exact hc.mem_filterMap_ofKind .tag (fun e _ => by cases e <;> simp) fun _ => rfl

theorem mem_allNamespaces {s : Store} (hc : s.catalog.Consistent) {n : Ref Namespace} :
    n ∈ s.allNamespaces ↔ ∃ id, s.catalog.find? id = some (.nameSpace n) := by
  rw [allNamespaces]
  exact hc.mem_filterMap_ofKind .nameSpace (fun e _ => by cases e <;> simp) fun _ => rfl

theorem removeSince_eq (s : Store) (snap : Snapshot) :
    s.removeSince snap = { s with catalog := s.catalog.keepOnly snap.ids } :=
  foldl_remove _ s

end Store

/-! ## Cutting back -/

namespace Snapshot

open Store Build

section

variable {α μ : Type} [Record α]

/-- Cuts records back to their marks. -/
def restoreAll (marks : List (String × μ)) (backTo : μ → α → α) : List (Ref α) → Build Unit
  | [] => return
  | r :: rest => do
    let x ← read r
    match marks.lookup (Record.id x) with
    | some mark => do
      change r (backTo mark)
      restoreAll marks backTo rest
    | none => throw (.missingKey (Record.id x))

theorem restoreTags_eq (snap : Snapshot) (refs : List (Ref Tag)) :
    snap.restoreTags refs = restoreAll snap.tags Tag.backTo refs := by
  induction refs with
  | nil => rfl
  | cons r rest ih =>
      unfold restoreTags restoreAll
      rw [ih]
      refine bind_congr fun t => ?_
      rw [show Record.id t = t.id from rfl]
      cases snap.tags.lookup t.id <;> rfl

theorem restoreNamespaces_eq (snap : Snapshot) (refs : List (Ref Namespace)) :
    snap.restoreNamespaces refs = restoreAll snap.namespaces Namespace.backTo refs := by
  induction refs with
  | nil => rfl
  | cons r rest ih =>
      unfold restoreNamespaces restoreAll
      rw [ih]
      refine bind_congr fun n => ?_
      rw [show Record.id n = n.id from rfl]
      cases snap.namespaces.lookup n.id <;> rfl

variable {marks : List (String × μ)} {backTo : μ → α → α}

theorem restoreAll_cons {s : Store} {r : Ref α} {mark : μ} (rest : List (Ref α))
    (hmark : marks.lookup (Record.id (s.get r)) = some mark) :
    (restoreAll marks backTo (r :: rest)).run s =
      (restoreAll marks backTo rest).run (s.modify r (backTo mark)) := by
  have hread : (restoreAll marks backTo (r :: rest)).run s =
      (match marks.lookup (Record.id (s.get r)) with
        | some mark => do
          change r (backTo mark)
          restoreAll marks backTo rest
        | none => throw (.missingKey (Record.id (s.get r))) : Build Unit).run s := rfl
  rw [hread, hmark]
  rfl

variable [HeapRecord α]

/-- The records of the list are cut back to their marks; nothing else has changed. -/
structure CutBack (marks : List (String × μ)) (backTo : μ → α → α) (refs : List (Ref α))
    (s s' : Store) : Prop where
  catalog : s'.catalog = s.catalog
  has : ∀ e, s'.Has e ↔ s.Has e
  content : ∀ e, (∀ r ∈ refs, e ≠ Record.entry r) → s'.content e = s.content e
  cut : ∀ r ∈ refs, ∃ mark, marks.lookup (Record.id (s.get r)) = some mark ∧
    s'.get r = backTo mark (s.get r)

/-- The loop comes to its end if every record has a mark. -/
theorem restoreAll_run (hid : ∀ mark x, Record.id (backTo mark x) = Record.id x)
    (htwice : ∀ mark x, backTo mark (backTo mark x) = backTo mark x) (refs : List (Ref α))
    {s : Store} (hrefs : ∀ r ∈ refs, s.Has (Record.entry r) ∧
      ∃ mark, marks.lookup (Record.id (s.get r)) = some mark) :
    ∃ s', (restoreAll marks backTo refs).run s = (.ok (), s') ∧
      CutBack marks backTo refs s s' := by
  induction refs generalizing s with
  | nil => exact ⟨s, rfl, rfl, fun _ => Iff.rfl, fun _ _ => rfl, nofun⟩
  | cons r rest ih =>
      obtain ⟨hhas, mark, hmark⟩ := hrefs r (List.mem_cons_self ..)
      set s₁ := s.modify r (backTo mark)
      have hget : s₁.get r = backTo mark (s.get r) := get_modify_self s r _ hhas
      have hother : ∀ r', r' ≠ r → s₁.get r' = s.get r' := fun r' hne =>
        get_eq_of_content_eq (content_modify_of_ne s r _ fun heq =>
          hne (HeapRecord.entry_injective heq))
      have hids : ∀ r' : Ref α, Record.id (s₁.get r') = Record.id (s.get r') := by
        intro r'
        by_cases heq : r' = r
        · rw [heq, hget, hid]
        · rw [hother r' heq]
      obtain ⟨s', hrun, hcut⟩ := ih (s := s₁) fun r' hr' => by
        obtain ⟨hhas', hmark'⟩ := hrefs r' (List.mem_cons_of_mem _ hr')
        rw [hids]
        exact ⟨(has_modify s r _ _).mpr hhas', hmark'⟩
      refine ⟨s', (restoreAll_cons rest hmark).trans hrun, ?_, ?_, ?_, ?_⟩
      · rw [hcut.catalog, catalog_modify]
      · exact fun e => (hcut.has e).trans (has_modify s r _ e)
      · intro e he
        rw [hcut.content e fun r' hr' => he r' (List.mem_cons_of_mem _ hr')]
        exact content_modify_of_ne s r _ (he r (List.mem_cons_self ..))
      -- a record that is cut back twice is as after the first time
      · intro r' hr'
        by_cases hlater : r' ∈ rest
        · obtain ⟨mark', hmark', hcut'⟩ := hcut.cut r' hlater
          rw [hids] at hmark'
          refine ⟨mark', hmark', ?_⟩
          by_cases heq : r' = r
          · subst heq
            rw [hmark] at hmark'
            cases hmark'
            rw [hcut', hget, htwice]
          · rw [hcut', hother r' heq]
        · rcases List.mem_cons.mp hr' with rfl | hmem
          · refine ⟨mark, hmark, ?_⟩
            have hsame : s'.content (Record.entry r') = s₁.content (Record.entry r') := by
              refine hcut.content _ fun r'' hr'' heq => hlater ?_
              rwa [HeapRecord.entry_injective heq]
            rw [get_eq_of_content_eq hsame, hget]
          · exact absurd hmem hlater

/-- All registered records of the kind are cut back to their marks; nothing else has changed. -/
structure AllCutBack (marks : List (String × μ)) (backTo : μ → α → α) (s s' : Store) : Prop where
  catalog : s'.catalog = s.catalog
  has : ∀ e, s'.Has e ↔ s.Has e
  content : ∀ e, (∀ r : Ref α, e ≠ Record.entry r) → s'.content e = s.content e
  cut : ∀ {id} {r : Ref α}, s.catalog.find? id = some (Record.entry r) →
    ∃ mark, marks.lookup id = some mark ∧ s'.get r = backTo mark (s.get r)

/-- The loop over all registered records comes to its end if each has a mark under its identifier. -/
theorem restoreAll_registered (hid : ∀ mark x, Record.id (backTo mark x) = Record.id x)
    (htwice : ∀ mark x, backTo mark (backTo mark x) = backTo mark x) {s : Store} {refs : List (Ref α)}
    (hrefs : ∀ r, r ∈ refs ↔ ∃ id, s.catalog.find? id = some (Record.entry r))
    (hplaced : ∀ {id} {r : Ref α}, s.catalog.find? id = some (Record.entry r) →
      s.Has (Record.entry r) ∧ Record.id (s.get r) = id)
    (hmarks : ∀ {id} {r : Ref α}, s.catalog.find? id = some (Record.entry r) →
      ∃ mark, marks.lookup id = some mark) :
    ∃ s', (restoreAll marks backTo refs).run s = (.ok (), s') ∧ AllCutBack marks backTo s s' := by
  obtain ⟨s', hrun, hcut⟩ := restoreAll_run hid htwice refs fun r hr => by
    obtain ⟨id, hr⟩ := (hrefs r).mp hr
    obtain ⟨hhas, rfl⟩ := hplaced hr
    exact ⟨hhas, hmarks hr⟩
  refine ⟨s', hrun, hcut.catalog, hcut.has, fun e he => hcut.content e fun r _ => he r, ?_⟩
  intro id r hr
  obtain ⟨-, rfl⟩ := hplaced hr
  exact hcut.cut r ((hrefs r).mpr ⟨_, hr⟩)

/-- Records that are at their marks stay as they are. -/
theorem restoreAll_self (refs : List (Ref α)) {s : Store}
    (hrefs : ∀ r ∈ refs, s.Has (Record.entry r) ∧
      ∃ mark, marks.lookup (Record.id (s.get r)) = some mark ∧
        backTo mark (s.get r) = s.get r) :
    (restoreAll marks backTo refs).run s = (.ok (), s) := by
  induction refs with
  | nil => rfl
  | cons r rest ih =>
      obtain ⟨hhas, mark, hmark, hself⟩ := hrefs r (List.mem_cons_self ..)
      rw [restoreAll_cons rest hmark, modify_eq_self hhas hself]
      exact ih fun r' hr' => hrefs r' (List.mem_cons_of_mem _ hr')

end

/-! ## Going back -/

/-- What going back leaves. -/
structure RolledBack (snap : Snapshot) (s s' : Store) : Prop where
  catalog : s'.catalog = s.catalog.keepOnly snap.ids
  has : ∀ e, s'.Has e ↔ s.Has e
  content : ∀ {e}, e.kind ≠ .tag → e.kind ≠ .nameSpace → s'.content e = s.content e
  tag : ∀ {id t}, s'.catalog.find? id = some (.tag t) →
    ∃ mark, snap.tags.lookup id = some mark ∧ s'.get t = (s.get t).backTo mark
  nameSpace : ∀ {id n}, s'.catalog.find? id = some (.nameSpace n) →
    ∃ mark, snap.namespaces.lookup id = some mark ∧ s'.get n = (s.get n).backTo mark

/-- The snapshot has a mark for every tag and namespace that stays registered. -/
structure Covers (snap : Snapshot) (s : Store) : Prop where
  tag : ∀ {id t}, s.catalog.find? id = some (.tag t) → id ∈ snap.ids →
    ∃ mark, snap.tags.lookup id = some mark
  nameSpace : ∀ {id n}, s.catalog.find? id = some (.nameSpace n) → id ∈ snap.ids →
    ∃ mark, snap.namespaces.lookup id = some mark

/-- **Going back comes to its end if the snapshot covers what stays registered.** -/
theorem rollback_run {snap : Snapshot} {s : Store} (hc : s.catalog.Consistent)
    (hlabelled : s.Labelled) (hcovers : snap.Covers s) :
    ∃ s', snap.rollback.run s = (.ok (), s') ∧ snap.RolledBack s s' := by
  set s₁ : Store := { s with catalog := s.catalog.keepOnly snap.ids } with hs₁
  have hc₁ : s₁.catalog.Consistent := hc.keepOnly _
  have hfind₁ : ∀ {id e}, s₁.catalog.find? id = some e ↔
      s.catalog.find? id = some e ∧ id ∈ snap.ids := hc.find?_keepOnly
  have hcontent₁ : ∀ e, s₁.content e = s.content e := content_with_catalog s _
  have hhas₁ : ∀ e, s₁.Has e ↔ s.Has e := has_with_catalog s _
  have hplaced : ∀ {id e}, s₁.catalog.find? id = some e → s.Placed e id := fun he =>
    hlabelled (hfind₁.mp he).1
  have htag₁ : ∀ t : Ref Tag, s₁.get t = s.get t := fun t => get_eq_of_content_eq (hcontent₁ (.tag t))
  obtain ⟨s₂, hrun₂, hcut₂⟩ : ∃ s₂, (snap.restoreTags s₁.allTags).run s₁ = (.ok (), s₂) ∧
      AllCutBack snap.tags Tag.backTo s₁ s₂ := by
    rw [restoreTags_eq]
    refine restoreAll_registered ?_ ?_ (fun t => mem_allTags hc₁) ?_ ?_
    · exact fun _ _ => rfl
    · exact fun m t => t.backTo_backTo ⟨Nat.le_refl _, Nat.le_refl _⟩
    · intro id t ht
      rw [htag₁, ← idOf_entry]
      exact ⟨(hhas₁ _).mpr (hplaced ht).has, (hplaced ht).idOf⟩
    · exact fun ht => hcovers.tag (hfind₁.mp ht).1 (hfind₁.mp ht).2
  -- the namespaces are those that were there before the tags
  have hc₂ : s₂.catalog.Consistent := by rwa [hcut₂.catalog]
  have hspace₂ : ∀ n : Ref Namespace, s₂.get n = s.get n := fun n =>
    get_eq_of_content_eq ((hcut₂.content (.nameSpace n) fun _ => nofun).trans (hcontent₁ _))
  obtain ⟨s₃, hrun₃, hcut₃⟩ : ∃ s₃,
      (snap.restoreNamespaces s₂.allNamespaces).run s₂ = (.ok (), s₃) ∧
      AllCutBack snap.namespaces Namespace.backTo s₂ s₃ := by
    rw [restoreNamespaces_eq]
    refine restoreAll_registered ?_ ?_ (fun n => mem_allNamespaces hc₂) ?_ ?_
    · exact fun _ _ => rfl
    · exact fun m n => n.backTo_backTo ⟨Nat.le_refl _, fun _ => id⟩
    all_goals
      intro id n hn
      rw [hcut₂.catalog] at hn
    · rw [hspace₂, ← idOf_entry]
      exact ⟨(hcut₂.has _).mpr ((hhas₁ _).mpr (hplaced hn).has), (hplaced hn).idOf⟩
    · exact hcovers.nameSpace (hfind₁.mp hn).1 (hfind₁.mp hn).2
  refine ⟨s₃, ?_, ?_⟩
  · have hremoved : s.removeSince snap = s₁ := removeSince_eq s snap
    have hunfold : snap.rollback.run s = (do
        snap.restoreTags (s.removeSince snap).allTags
        snap.restoreNamespaces (← get).allNamespaces : Build Unit).run (s.removeSince snap) := rfl
    rw [hunfold, hremoved, Action.run_bind_ok hrun₂]
    exact hrun₃
  · constructor
    case catalog =>
      rw [hcut₃.catalog, hcut₂.catalog]
    case has =>
      exact fun e => (hcut₃.has e).trans ((hcut₂.has e).trans (hhas₁ e))
    case content =>
      intro e htag hspace
      rw [hcut₃.content e, hcut₂.content e, hcontent₁]
      · rintro t rfl
        exact htag rfl
      · rintro n rfl
        exact hspace rfl
    case tag =>
      intro id t ht
      rw [hcut₃.catalog, hcut₂.catalog] at ht
      obtain ⟨mark, hmark, hcut⟩ := hcut₂.cut (r := t) ht
      have hlast : s₃.get t = s₂.get t :=
        get_eq_of_content_eq (hcut₃.content (.tag t) fun _ => nofun)
      exact ⟨mark, hmark, by rw [hlast, hcut, htag₁]⟩
    case nameSpace =>
      intro id n hn
      rw [hcut₃.catalog] at hn
      obtain ⟨mark, hmark, hcut⟩ := hcut₃.cut (r := n) hn
      exact ⟨mark, hmark, by rw [hcut, hspace₂]⟩

/-- Going back changes nothing where the snapshot knows all and every mark is reached. -/
theorem rollback_self {snap : Snapshot} {s : Store} (hc : s.catalog.Consistent)
    (hlabelled : s.Labelled) (hids : ∀ id ∈ s.catalog.ids, id ∈ snap.ids)
    (htag : ∀ {id t}, s.catalog.find? id = some (.tag t) →
      ∃ mark, snap.tags.lookup id = some mark ∧ (s.get t).backTo mark = s.get t)
    (hspace : ∀ {id n}, s.catalog.find? id = some (.nameSpace n) →
      ∃ mark, snap.namespaces.lookup id = some mark ∧ (s.get n).backTo mark = s.get n) :
    snap.rollback.run s = (.ok (), s) := by
  have hremoved : s.removeSince snap = s := by
    rw [removeSince_eq, Catalog.keepOnly_eq_self hids]
  have htags : (snap.restoreTags s.allTags).run s = (.ok (), s) := by
    rw [restoreTags_eq]
    refine restoreAll_self _ fun t ht => ?_
    obtain ⟨id, hid⟩ := (mem_allTags hc).mp ht
    have hplaced := hlabelled hid
    obtain ⟨mark, hmark, hself⟩ := htag hid
    refine ⟨hplaced.has, mark, ?_, hself⟩
    rwa [← idOf_entry, show s.idOf (Record.entry t) = id from hplaced.idOf]
  have hspaces : (snap.restoreNamespaces s.allNamespaces).run s = (.ok (), s) := by
    rw [restoreNamespaces_eq]
    refine restoreAll_self _ fun n hn => ?_
    obtain ⟨id, hid⟩ := (mem_allNamespaces hc).mp hn
    have hplaced := hlabelled hid
    obtain ⟨mark, hmark, hself⟩ := hspace hid
    refine ⟨hplaced.has, mark, ?_, hself⟩
    rwa [← idOf_entry, show s.idOf (Record.entry n) = id from hplaced.idOf]
  have hunfold : snap.rollback.run s = (do
      snap.restoreTags (s.removeSince snap).allTags
      snap.restoreNamespaces (← get).allNamespaces : Build Unit).run (s.removeSince snap) := rfl
  rw [hunfold, hremoved, Action.run_bind_ok htags]
  exact hspaces

end Snapshot

end StepTrace
