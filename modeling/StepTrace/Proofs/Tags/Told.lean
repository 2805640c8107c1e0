import Mathlib.Algebra.Group.Pi.Basic
import Mathlib.Algebra.Ring.Int.Defs
import StepTrace.Proofs.Build.Changes
import StepTrace.Proofs.Build.Tagging

/-!
# What tags are told

A build tells tags three things: that they are declared somewhere, that something owns them, and how
many scenarios they count.  `Told hole a s s'` says that between two stores each tag has been told
exactly what is in the account `a`; and that apart from the entries of `hole` no record has changed
its tags or what it holds (`Content.shape`).

Whoever has got a tag in between is among the owners of the account, and nothing that was there is
newly registered but steps, which have no tags.

Most of what a build does tells the tags nothing: it registers records that have no tags yet, and
changes records otherwise than in their shape (`Told.register`, `Told.modify`).
-/

namespace StepTrace

/-! ## Shapes -/

/-- What the accounts of tags depend on, of any record. -/
structure Shape where
  id : String
  tags : List (Ref Tag) := []
  tables : List (Ref Examples) := []
  rows : List (Ref Scenario) := []
  containers : List Container := []
  total : Nat := 0
  /-- The name and the token, of a tag. -/
  token : Option (String × String) := none

namespace Content

def shape : Content → Shape
  | nameSpace x => { id := x.id }
  | feature x =>
    { id := x.id, tags := x.tags, containers := x.scenarios, total := x.totalScenarios }
  | scenario x => { id := x.id, tags := x.tags }
  | outline x => { id := x.id, tags := x.tags, tables := x.examples, rows := x.scenarios }
  | examples x => { id := x.id, tags := x.tags }
  | step x => { id := x.id }
  | tag x => { id := x.id, token := some (x.name, x.value) }
  | definition x => { id := x.id }
  | transform x => { id := x.id }

theorem id_shape (c : Content) : c.shape.id = c.id := by
  cases c <;> rfl

theorem tags_shape (c : Content) : c.shape.tags = c.tags?.getD [] := by
  cases c <;> rfl

end Content

/-! ## Accounts -/

/-- What tags are told. -/
structure Account where
  /-- The tags that are declared, one for each declaration. -/
  sited : List (Ref Tag) := []
  /-- The tags with the identifiers of what owns them. -/
  owned : List (Ref Tag × String) := []
  /-- The scenarios that are counted for a tag. -/
  count : Ref Tag → Int := 0

/-- One account after the other. -/
instance : Append Account where
  append a b := ⟨a.sited ++ b.sited, a.owned ++ b.owned, a.count + b.count⟩

namespace Store

/-- The tags of a record, none if it has no list of them. -/
def tagList (s : Store) (e : Entry) : List (Ref Tag) :=
  (s.tagsOf? e).getD []

theorem tagList_eq (s : Store) (e : Entry) : s.tagList e = (s.content e).shape.tags := by
  rw [tagList, tagsOf?_eq, Content.tags_shape]

theorem idOf_shape (s : Store) (e : Entry) : s.idOf e = (s.content e).shape.id := by
  rw [idOf_eq, Content.id_shape]

/-- The tag is what is registered for the token. -/
def IsTagOf (s : Store) (token : Value) (t : Ref Tag) : Prop :=
  s.catalog.find? (tagId token.display) = some (.tag t)

/-- The tag is called after its token. -/
def Canonical (s : Store) (t : Ref Tag) : Prop :=
  (s.get t).id = tagId (s.get t).value ∧ (s.get t).name = stripSigil (s.get t).value

/-- Registered tags are there. -/
def TagsThere (s : Store) : Prop :=
  ∀ ⦃id t⦄, s.catalog.find? id = some (.tag t) → s.Has (.tag t)

/-- Between the stores the tags have been told what is in the account and nothing else; outside of
`hole` no record has changed its shape. -/
structure Told (hole : Entry → Prop) (a : Account) (s s' : Store) : Prop where
  has : ∀ {e}, s.Has e → s'.Has e
  idOf : ∀ {e}, s.Has e → s'.idOf e = s.idOf e
  shape : ∀ {e}, s.Has e → ¬ hole e → (s'.content e).shape = (s.content e).shape
  kept : ∀ {id e}, IsTag id → s.catalog.find? id = some e → s'.catalog.find? id = some e
  isNew : ∀ {id t}, s'.catalog.find? id = some (.tag t) →
    s.catalog.find? id = some (.tag t) ∨
      ¬ s.Has (.tag t) ∧ s'.Has (.tag t) ∧ s'.Canonical t ∧ t ∈ a.sited
  canonical : ∀ {t}, s.Has (.tag t) → s.Canonical t → s'.Canonical t
  entered : ∀ {id e}, s'.catalog.find? id = some e →
    s.catalog.find? id = some e ∨ ¬ s.Has e ∨ e.kind = .step
  gained : ∀ {e t}, s'.Has e → t ∈ s'.tagList e →
    s.Has e ∧ t ∈ s.tagList e ∨ (t, s'.idOf e) ∈ a.owned
  sites : ∀ t : Ref Tag,
    (s'.get t).sites.length = (s.get t).sites.length + a.sited.countP (· = t)
  nodup : ∀ t : Ref Tag, (s.get t).owners.Nodup → (s'.get t).owners.Nodup
  mem_owners : ∀ {t : Ref Tag} {id}, id ∈ (s'.get t).owners ↔
    id ∈ (s.get t).owners ∨ (t, id) ∈ a.owned
  total : ∀ t : Ref Tag, (s'.get t).totalScenarios = (s.get t).totalScenarios + a.count t

/-- The tags have been told nothing, and no record has changed its shape. -/
abbrev Silent (s s' : Store) : Prop :=
  Told untouched {} s s'

variable {hole hole' : Entry → Prop} {a a' : Account} {s s' s'' : Store}

namespace Told

theorem refl (s : Store) : Told hole {} s s where
  has := id
  idOf _ := rfl
  shape _ _ := rfl
  kept _ := id
  isNew := Or.inl
  canonical _ := id
  entered := Or.inl
  gained he ht := Or.inl ⟨he, ht⟩
  sites _ := rfl
  nodup _ := id
  mem_owners := by simp
  total _ := (Int.add_zero _).symm

/-- What is known of a record that is not set aside. -/
theorem tagList_eq (h : Told hole a s s') {e : Entry} (he : s.Has e) (hout : ¬ hole e) :
    s'.tagList e = s.tagList e := by
  rw [Store.tagList_eq, Store.tagList_eq, h.shape he hout]

theorem isTagOf (h : Told hole a s s') {token : Value} {t : Ref Tag} (ht : s.IsTagOf token t) :
    s'.IsTagOf token t :=
  h.kept (isTag_tagId _) ht

/-- One account after the other.  What is set aside later and was not there before need not be set
aside on the whole. -/
theorem trans (h : Told hole a s s') (h' : Told hole' a' s' s'')
    (hhole : ∀ e, hole' e → s.Has e → hole e) : Told hole (a ++ a') s s'' where
  has he := h'.has (h.has he)
  idOf he := (h'.idOf (h.has he)).trans (h.idOf he)
  shape he hout :=
    (h'.shape (h.has he) fun hhole' => hout (hhole _ hhole' he)).trans (h.shape he hout)
  kept hid he := h'.kept hid (h.kept hid he)
  isNew := by
    intro id t ht
    rcases h'.isNew ht with ht' | ⟨hnew, hhas, hcanonical, hsited⟩
    · refine (h.isNew ht').imp_right fun ⟨hnew, hhas, hcanonical, hsited⟩ => ?_
      exact ⟨hnew, h'.has hhas, h'.canonical hhas hcanonical, List.mem_append_left _ hsited⟩
    · exact Or.inr ⟨fun hold => hnew (h.has hold), hhas, hcanonical, List.mem_append_right _ hsited⟩
  canonical ht hcanonical := h'.canonical (h.has ht) (h.canonical ht hcanonical)
  entered := by
    intro id e he
    rcases h'.entered he with he' | hnew | hstep
    · exact h.entered he'
    · exact Or.inr (Or.inl fun hold => hnew (h.has hold))
    · exact Or.inr (Or.inr hstep)
  gained := by
    intro e t he ht
    rcases h'.gained he ht with ⟨he', ht'⟩ | hnew
    · refine (h.gained he' ht').imp id fun hmem => ?_
      rw [h'.idOf he']
      exact List.mem_append_left _ hmem
    · exact Or.inr (List.mem_append_right _ hnew)
  sites t := by
    rw [h'.sites, h.sites, Nat.add_assoc, ← List.countP_append]
    rfl
  nodup t ht := h'.nodup t (h.nodup t ht)
  mem_owners := by
    intro t id
    rw [h'.mem_owners, h.mem_owners, or_assoc, ← List.mem_append]
    rfl
  total t := by
    rw [h'.total, h.total, Int.add_assoc]
    rfl

/-- Accounts that are equal, and more that is set aside. -/
theorem mono {b : Account} (h : Told hole a s s') (hhole : ∀ e, hole e → hole' e)
    (hsited : b.sited = a.sited) (howned : b.owned = a.owned) (hcount : b.count = a.count) :
    Told hole' b s s' := by
  obtain rfl : b = a := by
    obtain ⟨_, _, _⟩ := a
    obtain ⟨_, _, _⟩ := b
    cases hsited
    cases howned
    cases hcount
    rfl
  exact { h with shape := fun he hout => h.shape he fun hin => hout (hhole _ hin) }

/-- It does not matter how often an owner is listed. -/
theorem owned_congr {owned : List (Ref Tag × String)} (h : Told hole a s s')
    (howned : ∀ p, p ∈ owned ↔ p ∈ a.owned) : Told hole { a with owned } s s' :=
  { h with
    gained := fun he ht => (h.gained he ht).imp_right (howned _).mpr
    mem_owners := by
      intro t id
      rw [h.mem_owners, howned] }

/-- First nothing is told. -/
theorem nothing_trans (h : Told hole {} s s') (h' : Told hole' a s' s'')
    (hhole : ∀ e, hole' e → s.Has e → hole e) : Told hole a s s'' :=
  (h.trans h' hhole).mono (fun _ => id) rfl rfl (funext fun _ => (Int.zero_add _).symm)

/-- Then nothing is told. -/
theorem trans_nothing (h : Told hole a s s') (h' : Told hole' {} s' s'')
    (hhole : ∀ e, hole' e → s.Has e → hole e) : Told hole a s s'' :=
  (h.trans h' hhole).mono (fun _ => id) (List.append_nil _).symm (List.append_nil _).symm
    (funext fun _ => (Int.add_zero _).symm)

/-- What is silent may come after. -/
theorem silent (h : Told hole a s s') (h' : Silent s' s'') : Told hole a s s'' :=
  h.trans_nothing h' fun _ => False.elim

/-- What is silent may come before. -/
theorem followed (h : Silent s s') (h' : Told hole a s' s'') : Told hole a s s'' :=
  (h.mono (fun _ => False.elim) rfl rfl rfl : Told hole {} s s').nothing_trans h' fun _ h _ => h

/-- What is set aside is new. -/
theorem of_new (h : Told hole a s s') (hnew : ∀ e, hole e → ¬ s.Has e) : Told hole' a s s' :=
  { h with shape := fun he _ => h.shape he fun hin => hnew _ hin he }

theorem tagsThere (h : Told hole a s s') (hs : s.TagsThere) : s'.TagsThere := by
  intro id t ht
  rcases h.isNew ht with hold | ⟨-, hhas, -⟩
  · exact h.has (hs hold)
  · exact hhas

/-! ## Operations that tell tags nothing -/

section

variable {α : Type} [Record α] [HeapRecord α]

/-- What leaves tags and their registrations as they are, and gives tags only to owners that they
know. -/
theorem of_same {owned : List (Ref Tag × String)} (hhas : ∀ {e}, s.Has e → s'.Has e) (hid : ∀ {e}, s.Has e → s'.idOf e = s.idOf e)
    (hshape : ∀ {e}, s.Has e → ¬ hole e → (s'.content e).shape = (s.content e).shape)
    (htag : ∀ t : Ref Tag, s'.get t = s.get t)
    (hkept : ∀ {id e}, IsTag id → s.catalog.find? id = some e → s'.catalog.find? id = some e)
    (hold : ∀ {id t}, s'.catalog.find? id = some (.tag t) → s.catalog.find? id = some (.tag t))
    (hentered : ∀ {id e}, s'.catalog.find? id = some e →
      s.catalog.find? id = some e ∨ ¬ s.Has e ∨ e.kind = .step)
    (hgained : ∀ {e t}, s'.Has e → t ∈ s'.tagList e →
      s.Has e ∧ t ∈ s.tagList e ∨ (t, s'.idOf e) ∈ owned)
    (howned : ∀ {t id}, (t, id) ∈ owned → id ∈ (s.get t).owners) :
    Told hole { owned } s s' where
  has := hhas
  idOf := hid
  shape := hshape
  kept := hkept
  isNew ht := Or.inl (hold ht)
  canonical _ h := by rwa [Canonical, htag]
  entered := hentered
  gained := hgained
  sites t := by rw [htag]; rfl
  nodup t ht := by rwa [htag]
  mem_owners := by
    intro t id
    rw [htag, or_iff_left_of_imp howned]
  total t := by rw [htag]; exact (Int.add_zero _).symm

/-- A record that is no tag, and has none, comes in unregistered. -/
theorem add (s : Store) (x : α) (htag : ∀ (r : Ref α) (t : Ref Tag), Entry.tag t ≠ Record.entry r)
    (hbare : (HeapRecord.wrap x).shape.tags = []) : Told hole {} s (s.add x).1 := by
  have hsame : ∀ {e}, s.Has e → (s.add x).1.content e = s.content e := content_add_of_has x
  refine .of_same (fun he => (has_add_iff s x _).mpr (Or.inl he)) ?_ ?_ ?_ ?_ ?_ ?_ ?_ nofun
  · intro e he
    rw [idOf_eq, idOf_eq, hsame he]
  · intro e he _
    rw [hsame he]
  · intro t
    exact Content.tag.inj (HeapRecord.content_setArena (α := α) s _ (.tag t) fun r => htag r t)
  · intro id e _ he
    rwa [catalog_add]
  · intro id t ht
    rwa [catalog_add] at ht
  · intro id e he
    rw [catalog_add] at he
    exact Or.inl he
  · intro e t he ht
    rw [Store.tagList_eq] at ht ⊢
    rcases (has_add_iff s x e).mp he with hold | rfl
    · exact Or.inl ⟨hold, hsame hold ▸ ht⟩
    · rw [content_add_self, hbare] at ht
      cases ht

omit [HeapRecord α] in
/-- A step is registered outside the identifiers of tags. -/
theorem enter (s : Store) (r : Ref α) (hstep : (Record.entry r).kind = .step)
    (hid : ¬ IsTag (Record.id (s.get r))) : Told hole {} s (s.enter r) := by
  have hentered : ∀ {id e}, (s.enter r).catalog.find? id = some e →
      s.catalog.find? id = some e ∨ e = Record.entry r := by
    intro id e he
    rw [catalog_enter, Catalog.find?_insert] at he
    split at he
    · exact Or.inr (Option.some.inj he).symm
    · exact Or.inl he
  refine .of_same (has_enter s r _).mpr (fun _ => ?_) (fun _ _ => ?_) (fun _ => rfl) ?_ ?_ ?_
    (fun he ht => Or.inl ⟨he, ht⟩) nofun
  · rw [idOf_eq, idOf_eq, content_enter]
  · rw [content_enter]
  · intro id e hisTag he
    rw [catalog_enter, Catalog.find?_insert_of_ne _ ?_, he]
    rintro rfl
    exact hid hisTag
  · intro id t ht
    refine (hentered ht).resolve_right fun heq => ?_
    rw [← heq] at hstep
    cases hstep
  · intro id e he
    refine (hentered he).imp_right fun heq => Or.inr ?_
    rw [heq, hstep]

/-- A record that is no tag, and has none, comes in outside the identifiers of tags. -/
theorem register (s : Store) {x : α} (htag : ∀ (r : Ref α) (t : Ref Tag), Entry.tag t ≠ Record.entry r)
    (hbare : (HeapRecord.wrap x).shape.tags = []) (hid : ¬ IsTag (Record.id x)) :
    Told hole {} s (s.register x).1 := by
  have hadd : Told hole {} s (s.add x).1 := .add s x htag hbare
  have hentered : ∀ {id e}, (s.register x).1.catalog.find? id = some e →
      s.catalog.find? id = some e ∨ e = Record.entry (s.register x).2 := by
    intro id e he
    rw [catalog_register, Catalog.find?_insert] at he
    split at he
    · exact Or.inr (Option.some.inj he).symm
    · exact Or.inl he
  refine .of_same hadd.has hadd.idOf hadd.shape ?_ ?_ ?_ ?_ ?_ nofun
  · intro t
    exact Content.tag.inj (HeapRecord.content_setArena (α := α) s _ (.tag t) fun r => htag r t)
  · intro id e hisTag he
    rw [catalog_register, Catalog.find?_insert_of_ne _ ?_, he]
    rintro rfl
    exact hid hisTag
  · exact fun ht => (hentered ht).resolve_right (htag _ _)
  · intro id e he
    refine (hentered he).imp_right fun heq => Or.inl ?_
    rw [heq]
    exact not_has_register_self s x
  · exact fun he ht => hadd.gained he ht

/-- A record that is no tag changes otherwise than in its shape, or is set aside; it gets only tags
that know it as an owner. -/
theorem retag (s : Store) (r : Ref α) {f : α → α} {owned : List (Ref Tag × String)}
    (htag : ∀ t : Ref Tag, Entry.tag t ≠ Record.entry r) (hid : ∀ x, Record.id (f x) = Record.id x)
    (hshape : ¬ hole (Record.entry r) →
      (HeapRecord.wrap (f (s.get r))).shape = (HeapRecord.wrap (s.get r)).shape)
    (htags : ∀ t ∈ (HeapRecord.wrap (f (s.get r))).shape.tags,
      t ∈ (HeapRecord.wrap (s.get r)).shape.tags ∨ (t, Record.id (s.get r)) ∈ owned)
    (howned : ∀ {t id}, (t, id) ∈ owned → id ∈ (s.get t).owners) :
    Told hole { owned } s (s.modify r f) := by
  have hidOf : ∀ {e}, s.Has e → (s.modify r f).idOf e = s.idOf e := by
    intro e he
    by_cases heq : e = Record.entry r
    · subst heq
      rw [idOf_entry, idOf_entry, get_modify_self s r f he, hid]
    · rw [idOf_eq, idOf_eq, content_modify_of_ne s r f heq]
  refine .of_same (has_modify s r f _).mpr hidOf ?_ ?_ ?_ ?_ ?_ ?_ howned
  · intro e he hout
    by_cases heq : e = Record.entry r
    · subst heq
      rw [content_modify_self s r f he, HeapRecord.content_entry, hshape hout]
    · rw [content_modify_of_ne s r f heq]
  · exact fun t => Content.tag.inj (content_modify_of_ne s r f (htag t))
  · intro id e _ he
    rwa [catalog_modify]
  · intro id t ht
    rwa [catalog_modify] at ht
  · intro id e he
    rw [catalog_modify] at he
    exact Or.inl he
  · intro e t he ht
    have hold := (has_modify s r f e).mp he
    rw [hidOf hold]
    rw [Store.tagList_eq] at ht ⊢
    by_cases heq : e = Record.entry r
    · subst heq
      rw [content_modify_self s r f hold] at ht
      rw [HeapRecord.content_entry, idOf_entry]
      exact (htags t ht).imp_left fun ht => ⟨hold, ht⟩
    · rw [content_modify_of_ne s r f heq] at ht
      exact Or.inl ⟨hold, ht⟩

/-- A record that is no tag keeps its tags, and changes otherwise than in its shape or is set aside. -/
theorem modify (s : Store) (r : Ref α) {f : α → α} (htag : ∀ t : Ref Tag, Entry.tag t ≠ Record.entry r)
    (hid : ∀ x, Record.id (f x) = Record.id x)
    (htags : (HeapRecord.wrap (f (s.get r))).shape.tags = (HeapRecord.wrap (s.get r)).shape.tags)
    (hshape : ¬ hole (Record.entry r) →
      (HeapRecord.wrap (f (s.get r))).shape = (HeapRecord.wrap (s.get r)).shape) :
    Told hole {} s (s.modify r f) :=
  .retag s r htag hid hshape (fun _ ht => Or.inl (htags ▸ ht)) nofun

end

/-! ## Operations on tags -/

/-- A place that has not been given out holds the empty record. -/
theorem get_of_not_has {t : Ref Tag} (ht : ¬ s.Has (.tag t)) : s.get t = default :=
  congrArg (Option.getD · default) (Array.getElem?_eq_none (Nat.le_of_not_lt ht))

/-- A tag comes in under a free identifier, and is told its first place. -/
theorem registerTag (s : Store) {token : String} (hfree : s.catalog.find? (tagId token) = none)
    (site : TagSite) : Told hole { sited := [(s.register (Tag.ofToken token)).2] } s
      ((s.register (Tag.ofToken token)).1.modify (s.register (Tag.ofToken token)).2
        fun t => { t with sites := t.sites ++ [site] }) := by
  set x := Tag.ofToken token
  set r := (s.register x).2
  set s₁ := (s.register x).1
  set s₂ := s₁.modify r fun t => { t with sites := t.sites ++ [site] }
  have hnew : ¬ s.Has (.tag r) := not_has_register_self s x
  have hhas : ∀ e, s₂.Has e ↔ s.Has e ∨ e = .tag r := fun e =>
    (has_modify s₁ r _ e).trans (has_register_iff s x e)
  have hsame : ∀ {e}, s.Has e → s₂.content e = s.content e := by
    intro e he
    have hne : e ≠ .tag r := by
      rintro rfl
      exact hnew he
    rw [content_modify_of_ne s₁ r _ hne, content_register_of_has x he]
  have hself : s₂.get r = { x with sites := [site] } := by
    rw [get_modify_self s₁ r _ (has_register_self s x), get_register_self s x]
    rfl
  -- a place that has not been given out has been told nothing
  have htold : ∀ t : Ref Tag, t ≠ r → s₂.get t = s.get t := by
    intro t hne
    by_cases ht : s.Has (.tag t)
    · exact Content.tag.inj (hsame ht)
    · have ht₂ : ¬ s₂.Has (.tag t) := fun h =>
        ((hhas _).mp h).elim ht fun h => hne (Entry.tag.inj h)
      rw [get_of_not_has ht, get_of_not_has ht₂]
  have hcatalog : s₂.catalog = s.catalog.insert (tagId token) (.tag r) := by
    rw [catalog_modify, catalog_register]
    rfl
  constructor
  case has => exact fun he => (hhas _).mpr (Or.inl he)
  case idOf =>
    intro e he
    rw [idOf_eq, idOf_eq, hsame he]
  case shape =>
    intro e he _
    rw [hsame he]
  case kept =>
    intro id e _ he
    rw [hcatalog, Catalog.find?_insert_of_ne _ ?_, he]
    rintro rfl
    rw [hfree] at he
    cases he
  case isNew =>
    intro id t ht
    rw [hcatalog, Catalog.find?_insert] at ht
    split at ht
    · cases ht
      refine Or.inr ⟨hnew, (hhas _).mpr (Or.inr rfl), ?_, List.mem_singleton_self r⟩
      rw [Canonical, hself]
      exact ⟨rfl, rfl⟩
    · exact Or.inl ht
  case canonical =>
    intro t ht hcanonical
    rwa [Canonical, Content.tag.inj (hsame ht)]
  case entered =>
    intro id e he
    rw [hcatalog, Catalog.find?_insert] at he
    split at he
    · exact Or.inr (Or.inl (Option.some.inj he ▸ hnew))
    · exact Or.inl he
  case gained =>
    intro e t he ht
    rcases (hhas e).mp he with hold | rfl
    · rw [Store.tagList_eq, hsame hold, ← Store.tagList_eq] at ht
      exact Or.inl ⟨hold, ht⟩
    · cases ht
  case sites =>
    intro t
    by_cases heq : t = r
    · rw [heq, hself, get_of_not_has hnew]
      simp [show (default : Tag).sites = [] from rfl]
    · have hcount : [r].countP (· = t) = 0 := by simp [Ne.symm heq]
      rw [htold t heq, hcount, Nat.add_zero]
  case nodup =>
    intro t
    by_cases heq : t = r
    · rw [heq, hself]
      exact fun _ => List.nodup_nil
    · rw [htold t heq]
      exact id
  case mem_owners =>
    intro t id
    by_cases heq : t = r
    · rw [heq, hself, get_of_not_has hnew]
      simp [x, Tag.ofToken, show (default : Tag).owners = [] from rfl]
    · rw [htold t heq]
      simp
  case total =>
    intro t
    by_cases heq : t = r
    · rw [heq, hself, get_of_not_has hnew]
      rfl
    · rw [htold t heq]
      exact (Int.add_zero _).symm

/-- A tag is told something. -/
theorem modifyTag (s : Store) {r : Ref Tag} (hr : s.Has (.tag r)) {f : Tag → Tag}
    (hshape : (Content.tag (f (s.get r))).shape = (Content.tag (s.get r)).shape)
    (hsites : (f (s.get r)).sites.length = (s.get r).sites.length + a.sited.countP (· = r))
    (hnodup : (s.get r).owners.Nodup → (f (s.get r)).owners.Nodup)
    (howners : ∀ id, id ∈ (f (s.get r)).owners ↔ id ∈ (s.get r).owners ∨ (r, id) ∈ a.owned)
    (htotal : (f (s.get r)).totalScenarios = (s.get r).totalScenarios + a.count r)
    (hother : ∀ t, t ≠ r → t ∉ a.sited ∧ (∀ id, (t, id) ∉ a.owned) ∧ a.count t = 0) :
    Told hole a s (s.modify r f) := by
  have hself : (s.modify r f).get r = f (s.get r) := get_modify_self s r f hr
  have hne : ∀ t : Ref Tag, t ≠ r → (s.modify r f).get t = s.get t := fun t ht =>
    Content.tag.inj (content_modify_of_ne s r f fun heq => ht (Entry.tag.inj heq))
  -- what a tag is told is no part of its shape
  have hall : ∀ e, ((s.modify r f).content e).shape = (s.content e).shape := by
    intro e
    by_cases heq : e = .tag r
    · subst heq
      rw [show (s.modify r f).content (.tag r) = .tag (f (s.get r)) from
        congrArg Content.tag hself, hshape]
      rfl
    · rw [content_modify_of_ne s r f heq]
  constructor
  case has => exact (has_modify s r f _).mpr
  case idOf =>
    intro e _
    rw [idOf_shape, idOf_shape, hall]
  case shape => exact fun _ _ => hall _
  case kept =>
    intro id e _ he
    rwa [catalog_modify]
  case isNew =>
    intro id t ht
    rw [catalog_modify] at ht
    exact Or.inl ht
  case canonical =>
    intro t _ hcanonical
    have hshape := hall (.tag t)
    have hid : ((s.modify r f).get t).id = (s.get t).id := (congrArg Shape.id hshape :)
    have htoken : some (((s.modify r f).get t).name, ((s.modify r f).get t).value) =
        some ((s.get t).name, (s.get t).value) := (congrArg Shape.token hshape :)
    obtain ⟨hname, hvalue⟩ := Prod.mk.inj (Option.some.inj htoken)
    rwa [Canonical, hid, hname, hvalue]
  case entered =>
    intro id e he
    rw [catalog_modify] at he
    exact Or.inl he
  case gained =>
    intro e t he ht
    rw [Store.tagList_eq, hall, ← Store.tagList_eq] at ht
    exact Or.inl ⟨(has_modify s r f e).mp he, ht⟩
  -- what is told is told of `r` alone
  case sites =>
    intro t
    by_cases ht : t = r
    · rw [ht, hself, hsites]
    · have hnone : a.sited.countP (· = t) = 0 :=
        List.countP_eq_zero.mpr fun x hx heq => (hother t ht).1 (of_decide_eq_true heq ▸ hx)
      rw [hne t ht, hnone, Nat.add_zero]
  case nodup =>
    intro t
    by_cases ht : t = r
    · rw [ht, hself]
      exact hnodup
    · rw [hne t ht]
      exact id
  case mem_owners =>
    intro t id
    by_cases ht : t = r
    · rw [ht, hself, howners]
    · rw [hne t ht, or_iff_left ((hother t ht).2.1 id)]
  case total =>
    intro t
    by_cases ht : t = r
    · rw [ht, hself, htotal]
    · rw [hne t ht, (hother t ht).2.2, Int.add_zero]

theorem addSite (s : Store) {r : Ref Tag} (hr : s.Has (.tag r)) (site : TagSite) :
    Told hole { sited := [r] } s (s.modify r fun t => { t with sites := t.sites ++ [site] }) := by
  refine .modifyTag s hr rfl ?_ id ?_ (Int.add_zero _).symm fun t ht => ⟨?_, ?_, rfl⟩
  all_goals simp_all

theorem giveOwner (s : Store) {r : Ref Tag} (hr : s.Has (.tag r)) (id : String) :
    Told hole { owned := [(r, id)] } s (s.giveOwner r id) := by
  unfold Store.giveOwner
  split
  · rename_i hmem
    have hsame : Told hole { owned := [(r, id)] } s (s.modify r fun t => t) :=
      .modifyTag s hr rfl rfl (fun h => h) (by simp_all) (Int.add_zero _).symm (by simp_all)
    rwa [modify_eq_self hr rfl] at hsame
  · rename_i hmem
    refine .modifyTag s hr rfl rfl (fun h => ?_) ?_ (Int.add_zero _).symm fun t ht => ⟨?_, ?_, rfl⟩
    · exact List.nodup_append.mpr ⟨h, List.nodup_singleton _, by simpa using fun _ h => ne_of_mem_of_not_mem h hmem⟩
    all_goals simp_all

theorem addCount (s : Store) {r : Ref Tag} (hr : s.Has (.tag r)) (n : Int) :
    Told hole { count := fun t => if t = r then n else 0 } s
      (s.modify r fun t => { t with totalScenarios := t.totalScenarios + n }) := by
  refine .modifyTag s hr rfl rfl id ?_ ?_ fun t ht => ⟨?_, ?_, if_neg ht⟩
  all_goals simp

end Told

end Store

end StepTrace
