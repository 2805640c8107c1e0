import StepTrace.Proofs.Registry.Builds
import StepTrace.Proofs.Rollback.Effect

/-!
# What later builds keep of a registry

A build of a file that was not registered touches nothing of what was: identifiers come in behind
the old ones, and of the old records only tags and namespaces change, which go on from where they
were (`Kept`).  Going back to any snapshot that was taken since keeps this, and going back to the
snapshot of the registry itself restores it (`Restored`).
-/

namespace StepTrace.Store

open Build

/-- All that was registered in `s₀` is still there in `s`, in its order, and has at most gone on. -/
structure Kept (s₀ s : Store) : Prop where
  has : ∀ {e}, s₀.Has e → s.Has e
  content : ∀ {e}, s₀.Has e → e.kind ≠ .tag → e.kind ≠ .nameSpace → s.content e = s₀.content e
  tag : ∀ {id t}, s₀.catalog.find? id = some (.tag t) →
    (s.get t).backTo (s₀.get t).mark = s₀.get t
  nameSpace : ∀ {id n}, s₀.catalog.find? id = some (.nameSpace n) →
    (s.get n).backTo (s₀.get n).mark = s₀.get n
  entries : s.catalog.entries.restrict (· ∈ s₀.catalog.ids) = s₀.catalog.entries.entries
  index : ∀ kind, (s.catalog.index kind).restrict (· ∈ s₀.catalog.ids) =
    (s₀.catalog.index kind).entries

/-- The registry `s` is what `s₀` was. -/
structure Restored (s₀ s : Store) : Prop where
  entries : s.catalog.entries = s₀.catalog.entries
  index : ∀ kind, s.catalog.index kind = s₀.catalog.index kind
  has : ∀ {e}, s₀.Has e → s.Has e
  registered : ∀ {id e}, s₀.catalog.find? id = some e → s.content e = s₀.content e
  content : ∀ {e}, s₀.Has e → e.kind ≠ .tag → e.kind ≠ .nameSpace → s.content e = s₀.content e

/-- The names of plain files, and nothing but the parts of documents. -/
abbrev Pure (s : Store) : Prop :=
  Sorted PlainName False s

variable {s₀ s s' : Store}

/-! ## Kinds can be read off identifiers -/

theorem Pure.isTag (h : Pure s) {id : String} {e : Entry} (he : s.catalog.find? id = some e)
    (hid : IsTag id) : ∃ t, e = .tag t := by
  have hpart : ¬ ∃ file, PlainName file ∧ Under file id ∧ id ≠ file := by
    rintro ⟨file, hfile, hunder, -⟩
    exact hfile.no_tag_under hunder hid
  have hfits := h.fits he
  cases e with
  | tag t => exact ⟨t, rfl⟩
  | nameSpace => exact absurd hid hfits.not_isTag
  | feature => exact absurd hid hfits.not_isTag
  | scenario | outline | examples | step => exact absurd hfits hpart
  | definition | transform => exact hfits.elim

theorem Pure.isDirectory (h : Pure s) {id : String} {e : Entry}
    (he : s.catalog.find? id = some e) (hid : IsDirectory id) : ∃ n, e = .nameSpace n := by
  have hpart : ¬ ∃ file, PlainName file ∧ Under file id ∧ id ≠ file := by
    rintro ⟨file, hfile, hunder, -⟩
    exact hfile.featureFile.not_isDirectory hunder hid
  have hfits := h.fits he
  cases e with
  | nameSpace n => exact ⟨n, rfl⟩
  | tag => exact absurd hfits hid.not_isTag
  | feature => exact absurd hid (hfits.featureFile.not_isDirectory (.refl _))
  | scenario | outline | examples | step => exact absurd hfits hpart
  | definition | transform => exact hfits.elim

/-- What is registered below the name of a file is a part of a feature. -/
theorem Pure.isPart_below (h : Pure s) {file id : String} {e : Entry} (hfile : PlainName file)
    (hunder : Under file id) (hne : id ≠ file) (he : s.catalog.find? id = some e) :
    e.kind.IsPart := by
  have hfits := h.fits he
  cases e with
  | nameSpace => exact absurd hfits (hfile.featureFile.not_isDirectory hunder)
  | tag => exact absurd hfits (hfile.no_tag_under hunder)
  | feature => exact absurd (hfits.featureFile.eq_of_under hfile.featureFile (.refl _) hunder) hne
  | scenario | outline | examples | step => trivial
  | definition | transform => exact hfits.elim

/-- What is registered under the name of a file belongs to the feature of that file. -/
theorem Orderly.mem_of_under (h : Orderly PlainName False s) {file id : String}
    (hfile : PlainName file) (hunder : Under file id) (hid : id ∈ s.catalog.ids) :
    file ∈ s.catalog.ids := by
  obtain ⟨e, he⟩ := Catalog.mem_ids_iff.mp hid
  have hfits := h.fits he
  have hpart : e.kind.IsPart → file ∈ s.catalog.ids := by
    intro hkind
    obtain ⟨file', r, hfile', hunder', hr⟩ := h.owned he hkind
    have hsame := hfile'.featureFile.eq_of_under hfile.featureFile hunder' hunder
    exact Catalog.mem_ids_iff.mpr ⟨_, hsame ▸ hr⟩
  cases e with
  | nameSpace => exact absurd hfits (hfile.featureFile.not_isDirectory hunder)
  | tag => exact absurd hfits (hfile.no_tag_under hunder)
  | feature =>
      have hsame := hfits.featureFile.eq_of_under hfile.featureFile (.refl _) hunder
      exact hsame ▸ hid
  | scenario | outline | examples | step => exact hpart trivial
  | definition | transform => exact hfits.elim

/-! ## Builds keep what was registered -/

namespace Kept

theorem refl (h : s.catalog.Consistent) : Kept s s where
  has := id
  content _ _ _ := rfl
  tag _ := Tag.backTo_mark _
  nameSpace _ := Namespace.backTo_mark _
  entries := OrderedMap.restrict_eq_self fun _ hid => decide_eq_true hid
  index _ := OrderedMap.restrict_eq_self fun _ hid => decide_eq_true (h.mem_ids_of_mem_index hid)

theorem find? (h : Kept s₀ s) (hc : s.catalog.Consistent) {id : String} {e : Entry}
    (he : s₀.catalog.find? id = some e) : s.catalog.find? id = some e := by
  have hmem := OrderedMap.mem_entries_of_find?_eq_some he
  rw [← h.entries, OrderedMap.mem_restrict] at hmem
  exact OrderedMap.find?_eq_some_of_mem hc.nodup hmem.1

theorem mem_ids (h : Kept s₀ s) (hc : s.catalog.Consistent) {id : String}
    (hid : id ∈ s₀.catalog.ids) : id ∈ s.catalog.ids := by
  obtain ⟨e, he⟩ := Catalog.mem_ids_iff.mp hid
  exact Catalog.mem_ids_iff.mpr ⟨e, h.find? hc he⟩

/-- Growth in a region that was not registered keeps all. -/
theorem grows (h : Kept s₀ s) (hlabelled : s₀.Labelled) (hc : s.catalog.Consistent)
    {region : String → Entry → Prop} {hole : Entry → Prop} (hgrows : Grows region hole s s')
    (hregion : ∀ id ∈ s₀.catalog.ids, ∀ e, ¬ region id e)
    (hhole : ∀ e, hole e → e.kind = .nameSpace)
    (hspace : ∀ n, s.Has (.nameSpace n) → (s'.get n).backTo (s.get n).mark = s.get n) :
    Kept s₀ s' := by
  have hold : ∀ id, decide (id ∈ s₀.catalog.ids) = true →
      id ∈ s.catalog.ids ∧ ∀ e, ¬ region id e := by
    intro id hid
    have hid' : id ∈ s₀.catalog.ids := of_decide_eq_true hid
    exact ⟨h.mem_ids hc hid', hregion id hid'⟩
  have hkeep := hgrows.catalog.restrict_eq hold
  constructor
  case has => exact fun he => hgrows.has (h.has he)
  case content =>
    intro e he htag hspace'
    rw [hgrows.content_eq (h.has he) (fun hin => hspace' (hhole e hin)) htag hspace',
      h.content he htag hspace']
  case tag =>
    intro id t ht
    have hhas := h.has (hlabelled ht).has
    have hstep := hgrows.get_tag hhas fun hin => nomatch hhole _ hin
    have hback := h.tag ht
    rw [← Tag.backTo_backTo _ (Tag.mark_le_of_backTo hback), hstep, hback]
  case nameSpace =>
    intro id n hn
    exact Namespace.backTo_trans (h.nameSpace hn) (hspace n (h.has (hlabelled hn).has))
  case entries => exact hkeep.1.trans h.entries
  case index => exact fun kind => (hkeep.2 kind).trans (h.index kind)

/-- Finding the namespace of a file keeps all that was registered. -/
theorem siteBuilt (h : Kept s₀ s) (hs₀ : Pure s₀) (hs : Pure s) (hsite : SiteBuilt s s') :
    Kept s₀ s' := by
  refine h.grows hs₀.labelled hs.consistent hsite.grows ?_ (fun _ => id) hsite.backTo
  rintro id hid e ⟨hdirectory, -, hnone⟩
  obtain ⟨e₀, he₀⟩ := Catalog.mem_ids_iff.mp hid
  obtain ⟨n, rfl⟩ := Pure.isDirectory hs₀ he₀ hdirectory
  exact hnone n (h.find? hs.consistent he₀)

/-- **The build of a file that was not registered keeps all that was.** -/
theorem featureLeft (h : Kept s₀ s) (hs₀ : Orderly PlainName False s₀) (hs : Pure s)
    {file : String} (hfile : PlainName file) (hfree : file ∉ s₀.catalog.ids)
    (hleft : FeatureLeft file s s') : Kept s₀ s' := by
  obtain ⟨s₁, hsite, hdocument⟩ := hleft
  have h₁ : Kept s₀ s₁ := h.siteBuilt hs₀.toSorted hs hsite
  rcases hdocument with rfl | ⟨r, hbuilt⟩
  · exact h₁
  · refine h₁.grows hs₀.labelled (hs.siteBuilt hsite).consistent hbuilt.grows ?_
      (fun _ => False.elim) ?_
    · intro id hid e hnew
      exact hfree (hs₀.mem_of_under hfile (documentOf_under hnew) hid)
    · intro n hn
      obtain ⟨ids, hget⟩ := hbuilt.grows.get_nameSpace hn id
      rw [hget, Namespace.backTo_withFeatures]

end Kept

end StepTrace.Store

namespace StepTrace

open Store

/-! ## Snapshots of such registries -/

namespace Snapshot

/-- The snapshot knows the marks of its tags and namespaces, and its namespaces form a tree. -/
structure Valid (snap : Snapshot) : Prop where
  tag : ∀ {id}, id ∈ snap.ids → IsTag id → ∃ mark, snap.tags.lookup id = some mark
  nameSpace : ∀ {id}, id ∈ snap.ids → IsDirectory id → ∃ mark, snap.namespaces.lookup id = some mark
  child : ∀ {id mark name}, id ∈ snap.ids → IsDirectory id →
    snap.namespaces.lookup id = some mark → '/' ∉ name.toList →
    (name ∈ mark.children ↔ id ++ "/" ++ name ∈ snap.ids)
  parent : ∀ {id name}, '/' ∉ name.toList → IsDirectory (id ++ "/" ++ name) →
    id ++ "/" ++ name ∈ snap.ids → id ∈ snap.ids

theorem Valid.covers {snap : Snapshot} (h : snap.Valid) {s : Store} (hs : Pure s) :
    snap.Covers s where
  tag ht hid := h.tag hid (hs.fits ht)
  nameSpace hn hid := h.nameSpace hid (hs.fits hn)

/-- The snapshot knows all of `s₀`, and its marks are no earlier. -/
structure Since (snap : Snapshot) (s₀ : Store) : Prop where
  ids : ∀ id ∈ s₀.catalog.ids, id ∈ snap.ids
  tag : ∀ {id t mark}, s₀.catalog.find? id = some (.tag t) → snap.tags.lookup id = some mark →
    (s₀.get t).mark.le mark
  nameSpace : ∀ {id n mark}, s₀.catalog.find? id = some (.nameSpace n) →
    snap.namespaces.lookup id = some mark → (s₀.get n).mark.le mark

end Snapshot

/-- In a list of pairs whose keys tell its elements apart, an element is found under its key. -/
private theorem lookup_map {α β : Type} (key : α → String) (value : α → β) {xs : List α} {x : α}
    (hx : x ∈ xs) (hkey : ∀ y ∈ xs, key y = key x → y = x) :
    (xs.map fun y => (key y, value y)).lookup (key x) = some (value x) := by
  induction xs with
  | nil => cases hx
  | cons y ys ih =>
      rw [List.map_cons, List.lookup_cons]
      by_cases heq : key y = key x
      · rw [hkey y (List.mem_cons_self ..) heq, beq_self_eq_true]
      · rw [beq_false_of_ne (Ne.symm heq)]
        refine ih ?_ fun z hz => hkey z (List.mem_cons_of_mem _ hz)
        rcases List.mem_cons.mp hx with rfl | hmem
        · exact absurd rfl heq
        · exact hmem

/-- A namespace that was cut back has the children that its mark knows. -/
theorem Namespace.find?_children_backTo (n : Namespace) (mark : NamespaceMark) (name : String) :
    (n.backTo mark).children.find? name =
      if name ∈ mark.children then n.children.find? name else none := by
  have h := n.children.find?_restrict (fun name => name ∈ mark.children) name
  simp only [decide_eq_true_iff] at h
  exact h

namespace Store

variable {s₀ s s' : Store} {snap : Snapshot}

theorem lookup_snapshot_tags (hc : s.catalog.Consistent) (hlabelled : s.Labelled) {id : String}
    {t : Ref Tag} (ht : s.catalog.find? id = some (.tag t)) :
    s.snapshot.tags.lookup id = some (s.get t).mark := by
  have hid : ∀ {id' t'}, s.catalog.find? id' = some (.tag t') → (s.get t').id = id' :=
    fun ht' => (hlabelled ht').idOf
  have hlookup := lookup_map (fun t => (s.get t).id) (fun t => (s.get t).mark)
    ((mem_allTags hc).mpr ⟨id, ht⟩) ?_
  · rwa [hid ht] at hlookup
  · intro t' ht' heq
    obtain ⟨id', hid'⟩ := (mem_allTags hc).mp ht'
    have hsame : id' = id := (hid hid').symm.trans (heq.trans (hid ht))
    rw [hsame, ht] at hid'
    cases hid'
    rfl

theorem lookup_snapshot_namespaces (hc : s.catalog.Consistent) (hlabelled : s.Labelled)
    {id : String} {n : Ref Namespace} (hn : s.catalog.find? id = some (.nameSpace n)) :
    s.snapshot.namespaces.lookup id = some (s.get n).mark := by
  have hid : ∀ {id' n'}, s.catalog.find? id' = some (.nameSpace n') → (s.get n').id = id' :=
    fun hn' => (hlabelled hn').idOf
  have hlookup := lookup_map (fun n => (s.get n).id) (fun n => (s.get n).mark)
    ((mem_allNamespaces hc).mpr ⟨id, hn⟩) ?_
  · rwa [hid hn] at hlookup
  · intro n' hn' heq
    obtain ⟨id', hid'⟩ := (mem_allNamespaces hc).mp hn'
    have hsame : id' = id := (hid hid').symm.trans (heq.trans (hid hn))
    rw [hsame, hn] at hid'
    cases hid'
    rfl

theorem Pure.snapshot_valid (h : Pure s) : s.snapshot.Valid where
  tag := by
    intro id hid htag
    obtain ⟨e, he⟩ := Catalog.mem_ids_iff.mp hid
    obtain ⟨t, rfl⟩ := Pure.isTag h he htag
    exact ⟨_, lookup_snapshot_tags h.consistent h.labelled he⟩
  nameSpace := by
    intro id hid hdirectory
    obtain ⟨e, he⟩ := Catalog.mem_ids_iff.mp hid
    obtain ⟨n, rfl⟩ := Pure.isDirectory h he hdirectory
    exact ⟨_, lookup_snapshot_namespaces h.consistent h.labelled he⟩
  child := by
    intro id mark name hid hdirectory hmark hname
    obtain ⟨e, he⟩ := Catalog.mem_ids_iff.mp hid
    obtain ⟨n, rfl⟩ := Pure.isDirectory h he hdirectory
    rw [lookup_snapshot_namespaces h.consistent h.labelled he] at hmark
    cases hmark
    constructor
    · intro hmem
      have hsome := OrderedMap.contains_iff.mpr hmem
      obtain ⟨c, hc⟩ := Option.isSome_iff_exists.mp hsome
      exact Catalog.mem_ids_iff.mpr ⟨_, (h.tree.child he hc).2.find?⟩
    · intro hmem
      obtain ⟨e', he'⟩ := Catalog.mem_ids_iff.mp hmem
      obtain ⟨c, rfl⟩ := Pure.isDirectory h he' (hdirectory.child name)
      rcases h.tree.parent he' with hroot | ⟨id', n', name', hname', heq, hn', hc⟩
      · exact absurd hroot (child_ne_root _ _)
      · obtain ⟨rfl, rfl⟩ := child_injective hname hname' heq
        rw [he] at hn'
        cases hn'
        exact OrderedMap.mem_keys_of_find?_eq_some hc
  parent := by
    intro id name hname hdirectory hid
    obtain ⟨e, he⟩ := Catalog.mem_ids_iff.mp hid
    obtain ⟨n, rfl⟩ := Pure.isDirectory h he hdirectory
    rcases h.tree.parent he with hroot | ⟨id', n', name', hname', heq, hn', -⟩
    · exact absurd hroot (child_ne_root _ _)
    · obtain ⟨rfl, rfl⟩ := child_injective hname hname' heq
      exact Catalog.mem_ids_iff.mpr ⟨_, hn'⟩

theorem Kept.snapshot_since (h : Kept s₀ s) (hs : Pure s) : s.snapshot.Since s₀ where
  ids _ hid := h.mem_ids hs.consistent hid
  tag := by
    intro id t mark ht hmark
    rw [lookup_snapshot_tags hs.consistent hs.labelled (h.find? hs.consistent ht)] at hmark
    cases hmark
    exact Tag.mark_le_of_backTo (h.tag ht)
  nameSpace := by
    intro id n mark hn hmark
    rw [lookup_snapshot_namespaces hs.consistent hs.labelled (h.find? hs.consistent hn)] at hmark
    cases hmark
    exact Namespace.mark_le_of_backTo (h.nameSpace hn)

/-! ## Going back keeps what was registered -/

section

variable (hback : snap.RolledBack s s')
include hback

theorem find?_rolledBack (hc : s.catalog.Consistent) {id : String} {e : Entry} :
    s'.catalog.find? id = some e ↔ s.catalog.find? id = some e ∧ id ∈ snap.ids := by
  rw [hback.catalog, hc.find?_keepOnly]

/-- What is registered has kept its identifier. -/
theorem idOf_rolledBack {id : String} {e : Entry} (he : s'.catalog.find? id = some e) :
    s'.idOf e = s.idOf e := by
  have hother : e.kind ≠ .tag → e.kind ≠ .nameSpace → s'.idOf e = s.idOf e := by
    intro htag hspace
    rw [idOf_eq, idOf_eq, hback.content htag hspace]
  cases e with
  | tag t =>
      obtain ⟨mark, -, hget⟩ := hback.tag he
      exact (congrArg Tag.id hget :)
  | nameSpace n =>
      obtain ⟨mark, -, hget⟩ := hback.nameSpace he
      exact (congrArg Namespace.id hget :)
  | feature | scenario | outline | examples | step | definition | transform =>
      exact hother nofun nofun

/-- Going back to a valid snapshot leaves a sorted registry. -/
theorem Pure.rolledBack (hs : Pure s) (hvalid : snap.Valid) : Pure s' where
  consistent := by
    rw [hback.catalog]
    exact hs.consistent.keepOnly _
  labelled := by
    intro id e he
    have hold := hs.labelled ((find?_rolledBack hback hs.consistent).mp he).1
    exact ⟨(hback.has e).mpr hold.has, (idOf_rolledBack hback he).trans hold.idOf, he⟩
  fits he := hs.fits ((find?_rolledBack hback hs.consistent).mp he).1
  tree := by
    have hfind := @find?_rolledBack s s' snap hback hs.consistent
    -- a child is kept exactly if its mark knows the name
    have hchildren : ∀ {id n}, s'.catalog.find? id = some (.nameSpace n) →
        ∃ mark, snap.namespaces.lookup id = some mark ∧ ∀ name,
          (s'.get n).children.find? name =
            if name ∈ mark.children then (s.get n).children.find? name else none := by
      intro id n hn
      obtain ⟨mark, hmark, hget⟩ := hback.nameSpace hn
      refine ⟨mark, hmark, fun name => ?_⟩
      rw [hget, Namespace.find?_children_backTo]
    have hiff : ∀ {id n mark name}, s'.catalog.find? id = some (.nameSpace n) →
        snap.namespaces.lookup id = some mark → '/' ∉ name.toList →
        (name ∈ mark.children ↔ id ++ "/" ++ name ∈ snap.ids) := fun hn hmark hname =>
      hvalid.child (hfind.mp hn).2 (hs.tree.isDirectory (hfind.mp hn).1) hmark hname
    refine ⟨fun hn => hs.tree.isDirectory (hfind.mp hn).1, ?_, ?_⟩
    · intro id n name c hn hc
      obtain ⟨mark, hmark, hkept⟩ := hchildren hn
      rw [hkept] at hc
      split at hc
      · rename_i hmem
        obtain ⟨hname, hplaced⟩ := hs.tree.child (hfind.mp hn).1 hc
        have hfound := hfind.mpr ⟨hplaced.find?, (hiff hn hmark hname).mp hmem⟩
        exact ⟨hname, (hback.has _).mpr hplaced.has,
          (idOf_rolledBack hback hfound).trans hplaced.idOf, hfound⟩
      · cases hc
    · intro id n hn
      obtain ⟨hold, hmem⟩ := hfind.mp hn
      rcases hs.tree.parent hold with hroot | ⟨id', n', name, hname, rfl, hn', hc⟩
      · exact Or.inl hroot
      · have hmem' := hvalid.parent hname (hs.tree.isDirectory hold) hmem
        have hparent := hfind.mpr ⟨hn', hmem'⟩
        refine Or.inr ⟨id', n', name, hname, rfl, hparent, ?_⟩
        obtain ⟨mark, hmark, hkept⟩ := hchildren hparent
        rw [hkept, if_pos ((hiff hparent hmark hname).mpr hmem), hc]

/-- **Going back to a snapshot that was taken since keeps what was registered.** -/
theorem Kept.rolledBack (h : Kept s₀ s) (hs : Pure s) (hsince : snap.Since s₀) : Kept s₀ s' := by
  have hfind : ∀ {id e}, s₀.catalog.find? id = some e → s'.catalog.find? id = some e := by
    intro id e he
    have hid := hsince.ids id (Catalog.mem_ids_iff.mpr ⟨e, he⟩)
    exact (find?_rolledBack hback hs.consistent).mpr ⟨h.find? hs.consistent he, hid⟩
  have hknown : ∀ id, decide (id ∈ s₀.catalog.ids) = true → decide (id ∈ snap.ids) = true :=
    fun id hid => decide_eq_true (hsince.ids id (of_decide_eq_true hid))
  constructor
  case has => exact fun he => (hback.has _).mpr (h.has he)
  case content =>
    intro e he htag hspace
    rw [hback.content htag hspace, h.content he htag hspace]
  case tag =>
    intro id t ht
    obtain ⟨mark, hmark, hget⟩ := hback.tag (hfind ht)
    rw [hget, Tag.backTo_backTo _ (hsince.tag ht hmark), h.tag ht]
  case nameSpace =>
    intro id n hn
    obtain ⟨mark, hmark, hget⟩ := hback.nameSpace (hfind hn)
    rw [hget, Namespace.backTo_backTo _ (hsince.nameSpace hn hmark), h.nameSpace hn]
  case entries =>
    rw [← h.entries, hback.catalog]
    exact OrderedMap.restrict_of_entries (s.catalog.entries_keepOnly snap.ids) hknown
  case index =>
    intro kind
    rw [← h.index kind, hback.catalog]
    exact OrderedMap.restrict_of_entries (hs.consistent.index_keepOnly snap.ids kind) hknown

end

/-- **Going back to the snapshot of a registry restores it.** -/
theorem Kept.restored (h : Kept s₀ s) (hs₀ : Pure s₀) (hs : Pure s)
    (hback : s₀.snapshot.RolledBack s s') : Restored s₀ s' := by
  have hfind : ∀ {id e}, s₀.catalog.find? id = some e → s'.catalog.find? id = some e :=
    fun he => (find?_rolledBack hback hs.consistent).mpr
      ⟨h.find? hs.consistent he, Catalog.mem_ids_iff.mpr ⟨_, he⟩⟩
  have hcontent : ∀ {e}, s₀.Has e → e.kind ≠ .tag → e.kind ≠ .nameSpace →
      s'.content e = s₀.content e := fun he htag hspace => by
    rw [hback.content htag hspace, h.content he htag hspace]
  constructor
  case entries =>
    rw [hback.catalog]
    exact OrderedMap.ext ((s.catalog.entries_keepOnly _).trans h.entries)
  case index =>
    intro kind
    rw [hback.catalog]
    exact OrderedMap.ext ((hs.consistent.index_keepOnly _ kind).trans (h.index kind))
  case has => exact fun he => (hback.has _).mpr (h.has he)
  case registered =>
    intro id e he
    cases e with
    | tag t =>
        obtain ⟨mark, hmark, hget⟩ := hback.tag (hfind he)
        rw [lookup_snapshot_tags hs₀.consistent hs₀.labelled he] at hmark
        cases hmark
        rw [h.tag he] at hget
        exact congrArg Content.tag hget
    | nameSpace n =>
        obtain ⟨mark, hmark, hget⟩ := hback.nameSpace (hfind he)
        rw [lookup_snapshot_namespaces hs₀.consistent hs₀.labelled he] at hmark
        cases hmark
        rw [h.nameSpace he] at hget
        exact congrArg Content.nameSpace hget
    | feature | scenario | outline | examples | step | definition | transform =>
        exact hcontent (hs₀.labelled he).has nofun nofun
  case content => exact hcontent

/-- A restored registry has the registrations of before. -/
theorem Restored.find? (h : Restored s₀ s) (id : String) :
    s.catalog.find? id = s₀.catalog.find? id := by
  rw [Catalog.find?, Catalog.find?, h.entries]

/-- **Going back once more changes nothing.** -/
theorem Restored.rollback_run (h : Restored s₀ s) (hs₀ : Pure s₀) (hs : Pure s) :
    s₀.snapshot.rollback.run s = (.ok (), s) := by
  refine Snapshot.rollback_self hs.consistent hs.labelled ?_ ?_ ?_
  · intro id hid
    rw [Catalog.ids, h.entries] at hid
    exact hid
  · intro id t ht
    rw [h.find?] at ht
    have hget : s.get t = s₀.get t := get_eq_of_content_eq (h.registered ht)
    refine ⟨_, lookup_snapshot_tags hs₀.consistent hs₀.labelled ht, ?_⟩
    rw [hget, Tag.backTo_mark]
  · intro id n hn
    rw [h.find?] at hn
    have hget : s.get n = s₀.get n := get_eq_of_content_eq (h.registered hn)
    refine ⟨_, lookup_snapshot_namespaces hs₀.consistent hs₀.labelled hn, ?_⟩
    rw [hget, Namespace.backTo_mark]

end Store

end StepTrace
