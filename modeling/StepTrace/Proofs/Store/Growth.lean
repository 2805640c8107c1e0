import StepTrace.Proofs.Store.Content

/-!
# Growth of a store

While a part of a document is built, the store grows: new records come in and are registered, and
of what was there only two kinds of records change: tags go on from where they were, and namespaces
get more features.  `Store.Grows region hole s s'` says this, except for

* the identifiers of `region`, under which anything may have been registered, and
* the entries of `hole`, whose records may have changed, but not their identifiers.

A tag has gone on if going back to its former mark gives what it was (`Content.Grown`).
-/

namespace StepTrace

/-! ## Going on from a mark -/

theorem Tag.backTo_mark (t : Tag) : t.backTo t.mark = t := by
  cases t
  simp [backTo, mark]

theorem Namespace.backTo_mark (n : Namespace) : n.backTo n.mark = n := by
  obtain ⟨id, name, parentId, description, ⟨entries⟩, featureIds⟩ := n
  simp only [backTo, mark, List.take_length, OrderedMap.keys, mk.injEq, OrderedMap.mk.injEq,
    and_true, true_and]
  exact List.filter_eq_self.mpr fun child hchild => decide_eq_true (List.mem_map_of_mem hchild)

/-- A later mark of a tag, at which it was at least as far. -/
def TagMark.le (m m' : TagMark) : Prop :=
  m.owners ≤ m'.owners ∧ m.sites ≤ m'.sites

/-- A later mark of a namespace, at which it was at least as far. -/
def NamespaceMark.le (m m' : NamespaceMark) : Prop :=
  m.features ≤ m'.features ∧ ∀ name ∈ m.children, name ∈ m'.children

theorem Tag.backTo_backTo (t : Tag) {m m' : TagMark} (h : m.le m') :
    (t.backTo m').backTo m = t.backTo m := by
  simp [backTo, List.take_take, Nat.min_eq_left h.1, Nat.min_eq_left h.2]

theorem Namespace.backTo_backTo (n : Namespace) {m m' : NamespaceMark} (h : m.le m') :
    (n.backTo m').backTo m = n.backTo m := by
  simp only [backTo, List.take_take, Nat.min_eq_left h.1, List.filter_filter]
  congr 2
  apply List.filter_congr
  intro child _
  by_cases hchild : child.1 ∈ m.children
  · simp [hchild, h.2 _ hchild]
  · simp [hchild]

/-- A tag that has gone on from a mark is at least as far. -/
theorem Tag.mark_le_of_backTo {t t' : Tag} (h : t'.backTo t.mark = t) : t.mark.le t'.mark := by
  have howners := congrArg (fun x => x.owners.length) h
  have hsites := congrArg (fun x => x.sites.length) h
  simp only [backTo, mark, List.length_take] at howners hsites
  exact ⟨by simp only [mark]; omega, by simp only [mark]; omega⟩

theorem Namespace.mark_le_of_backTo {n n' : Namespace} (h : n'.backTo n.mark = n) :
    n.mark.le n'.mark := by
  have hfeatures := congrArg (fun x => x.featureIds.length) h
  simp only [backTo, mark, List.length_take] at hfeatures
  refine ⟨by simp only [mark]; omega, ?_⟩
  intro name hname
  have hchildren := congrArg (fun x => x.children.entries) h
  simp only [backTo, mark] at hchildren hname ⊢
  obtain ⟨child, hchild, rfl⟩ := List.mem_map.mp hname
  rw [← hchildren] at hchild
  exact List.mem_map_of_mem (List.mem_of_mem_filter hchild)

/-! ## Grown records -/

/-- The namespace with more features. -/
def Namespace.withFeatures (n : Namespace) (ids : List String) : Namespace :=
  { n with featureIds := n.featureIds ++ ids }

theorem Namespace.backTo_withFeatures (n : Namespace) (ids : List String) :
    (n.withFeatures ids).backTo n.mark = n := by
  have h := n.backTo_mark
  simp only [backTo, mark, withFeatures, List.take_left', List.take_length] at h ⊢
  exact h

/-- What a record may become while others are built. -/
inductive Content.Grown : Content → Content → Prop
  | refl (c : Content) : Grown c c
  | tag {t t' : Tag} (h : t'.backTo t.mark = t) : Grown (.tag t) (.tag t')
  | nameSpace (n : Namespace) (ids : List String) :
      Grown (.nameSpace n) (.nameSpace (n.withFeatures ids))

namespace Content.Grown

theorem trans {a b c : Content} (hab : Grown a b) (hbc : Grown b c) : Grown a c := by
  cases hab with
  | refl => exact hbc
  | @tag t t' h =>
      cases hbc with
      | refl => exact .tag h
      | @tag _ t'' h' =>
          refine .tag ?_
          rw [← Tag.backTo_backTo t'' (Tag.mark_le_of_backTo h), h', h]
  | nameSpace n ids =>
      cases hbc with
      | refl => exact .nameSpace n ids
      | nameSpace _ ids' =>
          have happend : (n.withFeatures ids).withFeatures ids' = n.withFeatures (ids ++ ids') := by
            simp [Namespace.withFeatures]
          rw [happend]
          exact .nameSpace n _

theorem tag_iff {t t' : Tag} : Grown (.tag t) (.tag t') ↔ t'.backTo t.mark = t := by
  constructor
  · intro h
    cases h with
    | refl => exact t.backTo_mark
    | tag h => exact h
  · exact .tag

theorem nameSpace_iff {n n' : Namespace} :
    Grown (.nameSpace n) (.nameSpace n') ↔ ∃ ids, n' = n.withFeatures ids := by
  constructor
  · intro h
    cases h with
    | refl =>
        refine ⟨[], ?_⟩
        cases n
        simp [Namespace.withFeatures]
    | nameSpace _ ids => exact ⟨ids, rfl⟩
  · rintro ⟨ids, rfl⟩
    exact .nameSpace n ids

/-- A record that is neither a tag nor a namespace has not changed. -/
theorem eq_of_ne {c c' : Content} (h : Grown c c') (htag : ∀ t, c ≠ .tag t)
    (hspace : ∀ n, c ≠ .nameSpace n) : c' = c := by
  cases h with
  | refl => rfl
  | tag => exact absurd rfl (htag _)
  | nameSpace => exact absurd rfl (hspace _)

theorem id_eq {c c' : Content} (h : Grown c c') : c'.id = c.id := by
  cases h with
  | refl => rfl
  | tag h => exact (congrArg Tag.id h :)
  | nameSpace => rfl

end Content.Grown

/-! ## Grown stores -/

/-- No registrations but those of tags. -/
def nowhere (_ : String) (_ : Entry) : Prop := False

/-- No record is set aside. -/
def untouched (_ : Entry) : Prop := False

/-- The store has grown by registrations in the region, with the records of `hole` set aside. -/
structure Store.Grows (region : String → Entry → Prop) (hole : Entry → Prop) (s s' : Store) :
    Prop where
  has : ∀ {e}, s.Has e → s'.Has e
  content : ∀ {e}, s.Has e → ¬ hole e → (s.content e).Grown (s'.content e)
  idOf : ∀ {e}, s.Has e → s'.idOf e = s.idOf e
  catalog : s.catalog.Grows region s'.catalog
  entered : ∀ {id e}, s'.catalog.find? id = some e →
    s.catalog.find? id = some e ∨ s'.Has e ∧ s'.idOf e = id

namespace Store.Grows

variable {region region' : String → Entry → Prop} {hole hole' : Entry → Prop} {s s' s'' : Store}

theorem refl (s : Store) : Grows region hole s s where
  has := id
  content _ _ := .refl _
  idOf _ := rfl
  catalog := .refl
  entered := Or.inl

/-- What is set aside later and was not there before need not be set aside on the whole. -/
theorem trans (h : Grows region hole s s') (h' : Grows region' hole' s' s'')
    (hregion : ∀ id e, region' id e → region id e) (hhole : ∀ e, hole' e → s.Has e → hole e) :
    Grows region hole s s'' where
  has he := h'.has (h.has he)
  content he hout := (h.content he hout).trans
    (h'.content (h.has he) fun hin => hout (hhole _ hin he))
  idOf he := (h'.idOf (h.has he)).trans (h.idOf he)
  catalog := h.catalog.trans (h'.catalog.mono hregion)
  entered := by
    intro id e he
    rcases h'.entered he with he | he
    · rcases h.entered he with he | ⟨hhas, hid⟩
      · exact Or.inl he
      · exact Or.inr ⟨h'.has hhas, (h'.idOf hhas).trans hid⟩
    · exact Or.inr he

/-- What is set aside later need not be if it has come in since. -/
theorem trans_fresh {e : Entry} (h : Grows region hole s s') (hnew : ¬ s.Has e)
    (h' : Grows region' (· = e) s' s'') (hregion : ∀ id e, region' id e → region id e) :
    Grows region hole s s'' := by
  refine h.trans h' hregion ?_
  rintro _ rfl hhas
  exact absurd hhas hnew

theorem mono (h : Grows region hole s s') (hregion : ∀ id e, region id e → region' id e)
    (hhole : ∀ e, hole e → hole' e) : Grows region' hole' s s' where
  has := h.has
  content he hout := h.content he fun hin => hout (hhole _ hin)
  idOf := h.idOf
  catalog := h.catalog.mono hregion
  entered := h.entered

/-- Anything may be set aside. -/
theorem set_aside (h : Grows region untouched s s') : Grows region hole s s' :=
  h.mono (fun _ _ => id) fun _ => False.elim

/-- Outside what is set aside, records other than tags and namespaces stay. -/
theorem content_eq (h : Grows region hole s s') {e : Entry} (he : s.Has e) (hout : ¬ hole e)
    (htag : e.kind ≠ .tag) (hspace : e.kind ≠ .nameSpace) : s'.content e = s.content e := by
  refine (h.content he hout).eq_of_ne ?_ ?_
  · intro t heq
    cases e <;> first | exact htag rfl | cases heq
  · intro n heq
    cases e <;> first | exact hspace rfl | cases heq

theorem get_feature (h : Grows region hole s s') {r : Ref Feature} (hr : s.Has (.feature r))
    (hout : ¬ hole (.feature r)) : s'.get r = s.get r :=
  get_eq_of_content_eq (h.content_eq hr hout nofun nofun)

theorem get_scenario (h : Grows region hole s s') {r : Ref Scenario} (hr : s.Has (.scenario r))
    (hout : ¬ hole (.scenario r)) : s'.get r = s.get r :=
  get_eq_of_content_eq (h.content_eq hr hout nofun nofun)

theorem get_outline (h : Grows region hole s s') {r : Ref Outline} (hr : s.Has (.outline r))
    (hout : ¬ hole (.outline r)) : s'.get r = s.get r :=
  get_eq_of_content_eq (h.content_eq hr hout nofun nofun)

theorem get_examples (h : Grows region hole s s') {r : Ref Examples} (hr : s.Has (.examples r))
    (hout : ¬ hole (.examples r)) : s'.get r = s.get r :=
  get_eq_of_content_eq (h.content_eq hr hout nofun nofun)

theorem get_step (h : Grows region hole s s') {r : Ref Step} (hr : s.Has (.step r))
    (hout : ¬ hole (.step r)) : s'.get r = s.get r :=
  get_eq_of_content_eq (h.content_eq hr hout nofun nofun)

theorem get_tag (h : Grows region hole s s') {r : Ref Tag} (hr : s.Has (.tag r))
    (hout : ¬ hole (.tag r)) : (s'.get r).backTo (s.get r).mark = s.get r :=
  Content.Grown.tag_iff.mp (h.content hr hout)

theorem get_nameSpace (h : Grows region hole s s') {r : Ref Namespace}
    (hr : s.Has (.nameSpace r)) (hout : ¬ hole (.nameSpace r)) :
    ∃ ids, s'.get r = (s.get r).withFeatures ids :=
  Content.Grown.nameSpace_iff.mp (h.content hr hout)

/-! ## One operation -/

variable {α : Type} [Record α] [HeapRecord α]

theorem add (s : Store) (x : α) : Grows region hole s (s.add x).1 where
  has he := (has_add_iff s x _).mpr (Or.inl he)
  content he _ := by
    rw [content_add_of_has x he]
    exact .refl _
  idOf he := by rw [idOf_eq, idOf_eq, content_add_of_has x he]
  catalog := by
    rw [catalog_add]
    exact .refl
  entered := by
    rw [catalog_add]
    exact Or.inl

theorem enter {s : Store} {r : Ref α} (hr : s.Has (Record.entry r))
    (hregion : region (Record.id (s.get r)) (Record.entry r)) :
    Grows region hole s (s.enter r) where
  has := (has_enter s r _).mpr
  content _ _ := by
    rw [content_enter]
    exact .refl _
  idOf _ := by rw [idOf_eq, idOf_eq, content_enter]
  catalog := .single _ hregion
  entered := by
    intro id e he
    rw [catalog_enter, Catalog.find?_insert] at he
    split at he
    · rename_i heq
      cases he
      refine Or.inr ⟨(has_enter s r _).mpr hr, ?_⟩
      rw [heq, idOf_eq, content_enter, ← idOf_eq, idOf_entry]
    · exact Or.inl he

theorem register (s : Store) {x : α}
    (hregion : ∀ r : Ref α, region (Record.id x) (Record.entry r)) :
    Grows region hole s (s.register x).1 := by
  have hentered : Grows region hole (s.add x).1 ((s.add x).1.enter (s.add x).2) := by
    apply enter (has_add_self s x)
    rw [get_add_self]
    exact hregion _
  rw [register_eq]
  exact (add s x).trans hentered (fun _ _ => id) (fun _ h _ => h)

/-- A tag may be registered under a free identifier. -/
theorem register_tag (s : Store) {x : Tag} (hid : IsTag x.id)
    (hfree : s.catalog.find? x.id = none) : Grows region hole s (s.register x).1 := by
  have hnew : Grows (fun id _ => id = x.id) hole s (s.register x).1 := register s fun _ => rfl
  refine ⟨hnew.has, hnew.content, hnew.idOf, ?_, hnew.entered⟩
  rw [catalog_register]
  exact .insert .refl (Or.inr ⟨hid, rfl, hfree⟩)

theorem modify {s : Store} {r : Ref α} {f : α → α} (hid : ∀ x, Record.id (f x) = Record.id x)
    (hgrown : ¬ hole (Record.entry r) →
      (HeapRecord.wrap (s.get r)).Grown (HeapRecord.wrap (f (s.get r)))) :
    Grows region hole s (s.modify r f) where
  has := (has_modify s r f _).mpr
  content := by
    intro e he hout
    by_cases heq : e = Record.entry r
    · subst heq
      rw [content_modify_self s r f he, HeapRecord.content_entry]
      exact hgrown hout
    · rw [content_modify_of_ne s r f heq]
      exact .refl _
  idOf := by
    intro e he
    by_cases heq : e = Record.entry r
    · subst heq
      rw [idOf_entry, idOf_entry, get_modify_self s r f he, hid]
    · rw [idOf_eq, idOf_eq, content_modify_of_ne s r f heq]
  catalog := by
    rw [catalog_modify]
    exact .refl
  entered := by
    rw [catalog_modify]
    exact Or.inl

/-- A record that is set aside may change as it likes. -/
theorem modify_hole {s : Store} {r : Ref α} {f : α → α}
    (hid : ∀ x, Record.id (f x) = Record.id x) (hhole : hole (Record.entry r)) :
    Grows region hole s (s.modify r f) :=
  modify hid fun hout => absurd hhole hout

/-- Only what has changed at the end is set aside. -/
theorem modify_last (h : Grows region untouched s s') (r : Ref α) {f : α → α}
    (hid : ∀ x, Record.id (f x) = Record.id x) :
    Grows region (· = Record.entry r) s (s'.modify r f) := by
  have hchange : Grows region (· = Record.entry r) s' (s'.modify r f) := modify_hole hid rfl
  exact h.set_aside.trans hchange (fun _ _ => id) fun _ heq _ => heq

end Store.Grows

end StepTrace
