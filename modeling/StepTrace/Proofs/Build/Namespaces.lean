import StepTrace.Assembly.Feature
import StepTrace.Proofs.Build.Ensures
import StepTrace.Proofs.Build.Placed

/-!
# The tree of namespaces

The namespaces form a tree below the root: the child `name` of the namespace `id` is registered under
`id/name`, and every namespace but the root is the child of one (`Tree`).  Names hold no slash, so a
namespace that its parent does not have is not registered at all; that is why looking for the
namespace of a file registers only namespaces that were not there (`NewDirectory`).
-/

namespace StepTrace

/-- Whatever is registered has been given out and carries the identifier. -/
def Store.Labelled (s : Store) : Prop :=
  ∀ ⦃id e⦄, s.catalog.find? id = some e → s.Placed e id

theorem Store.Labelled.grows {s s' : Store} {region : String → Entry → Prop}
    {hole : Entry → Prop} (h : s.Labelled) (hgrows : s.Grows region hole s') : s'.Labelled := by
  intro id e he
  rcases hgrows.entered he with hold | ⟨hhas, hid⟩
  · exact ⟨hgrows.has (h hold).has, (hgrows.idOf (h hold).has).trans (h hold).idOf, he⟩
  · exact ⟨hhas, hid, he⟩

/-! ## Identifiers of namespaces -/

/-- The identifier of the namespace that a list of names leads to. -/
def directoryId (names : List String) : String :=
  names.foldl (fun id name => id ++ "/" ++ name) rootNamespaceId

theorem IsDirectory.child {id : String} (h : IsDirectory id) (name : String) :
    IsDirectory (id ++ "/" ++ name) := by
  right
  rcases h with rfl | ⟨rest, hrest⟩
  · exact ⟨name.toList, by simp [rootPrefix]⟩
  · refine ⟨rest ++ '/' :: name.toList, ?_⟩
    rw [← List.append_assoc, hrest]
    simp

private theorem split_last_slash {a b m n : List Char} (hm : '/' ∉ m) (hn : '/' ∉ n)
    (h : a ++ '/' :: m = b ++ '/' :: n) : a = b ∧ m = n := by
  have hall : ∀ {l : List Char}, '/' ∉ l → ∀ c ∈ l.reverse, (c != '/') = true := by
    intro l hl c hc
    simp only [bne_iff_ne, ne_eq]
    rintro rfl
    exact hl (List.mem_reverse.mp hc)
  have hreverse : m.reverse ++ '/' :: a.reverse = n.reverse ++ '/' :: b.reverse := by
    have := congrArg List.reverse h
    simpa using this
  have htake := congrArg (List.takeWhile (· != '/')) hreverse
  rw [List.takeWhile_append_of_pos (hall hm), List.takeWhile_append_of_pos (hall hn)] at htake
  have hsame : m = n := by simpa using htake
  subst hsame
  exact ⟨by simpa using h, rfl⟩

/-- The last name of an identifier can be read off. -/
theorem child_injective {id id' name name' : String} (hname : '/' ∉ name.toList)
    (hname' : '/' ∉ name'.toList) (h : id ++ "/" ++ name = id' ++ "/" ++ name') :
    id = id' ∧ name = name' := by
  have hlist := congrArg String.toList h
  simp only [String.toList_append, List.append_assoc] at hlist
  obtain ⟨hid, hsame⟩ := split_last_slash hname hname' hlist
  exact ⟨String.toList_injective hid, String.toList_injective hsame⟩

theorem child_ne_root (id name : String) : id ++ "/" ++ name ≠ rootNamespaceId := by
  intro h
  have hmem : '/' ∈ (id ++ "/" ++ name).toList := by simp
  rw [h] at hmem
  exact absurd hmem (by decide)

/-! ## Changes of namespaces -/

theorem Namespace.backTo_addChild (n : Namespace) {name : String} (child : Ref Namespace)
    (hname : name ∉ n.children.keys) :
    ({ n with children := n.children.insert name child } : Namespace).backTo n.mark = n := by
  have hold : (n.children.insert name child).entries.filter (fun c => c.1 ∈ n.mark.children) =
      n.children.entries.filter fun c => c.1 ∈ n.mark.children := by
    rw [OrderedMap.insert_of_not_mem child hname, List.filter_append]
    simp [mark, hname]
  calc ({ n with children := n.children.insert name child } : Namespace).backTo n.mark
      = n.backTo n.mark := by
        unfold backTo
        dsimp only
        rw [hold]
    _ = n := n.backTo_mark

theorem Namespace.backTo_describe (n : Namespace) (text : String) :
    ({ n with description := text } : Namespace).backTo n.mark = n :=
  n.backTo_mark

theorem Namespace.backTo_trans {n n' n'' : Namespace} (h : n'.backTo n.mark = n)
    (h' : n''.backTo n'.mark = n') : n''.backTo n.mark = n := by
  rw [← backTo_backTo n'' (mark_le_of_backTo h), h', h]

/-! ## The tree -/

namespace Store

/-- The registered namespaces form a tree. -/
structure Tree (s : Store) : Prop where
  isDirectory : ∀ {id n}, s.catalog.find? id = some (.nameSpace n) → IsDirectory id
  child : ∀ {id n name c}, s.catalog.find? id = some (.nameSpace n) →
    (s.get n).children.find? name = some c →
    '/' ∉ name.toList ∧ s.Placed (.nameSpace c) (id ++ "/" ++ name)
  parent : ∀ {id n}, s.catalog.find? id = some (.nameSpace n) → id = rootNamespaceId ∨
    ∃ id' n' name, '/' ∉ name.toList ∧ id = id' ++ "/" ++ name ∧
      s.catalog.find? id' = some (.nameSpace n') ∧ (s.get n').children.find? name = some n

/-- A child that a namespace does not have is not registered as a namespace. -/
theorem Tree.isNew {s : Store} (h : s.Tree) {id name : String} {n : Ref Namespace}
    (hn : s.catalog.find? id = some (.nameSpace n)) (hname : '/' ∉ name.toList)
    (hnone : (s.get n).children.find? name = none) (m : Ref Namespace) :
    s.catalog.find? (id ++ "/" ++ name) ≠ some (.nameSpace m) := by
  intro hm
  rcases h.parent hm with hroot | ⟨id', n', name', hname', heq, hn', hchild⟩
  · exact child_ne_root _ _ hroot
  · obtain ⟨rfl, rfl⟩ := child_injective hname hname' heq
    rw [hn] at hn'
    cases hn'
    rw [hnone] at hchild
    cases hchild

/-- What is not a namespace comes in without changing the tree. -/
theorem Tree.grows {s s' : Store} {region : String → Entry → Prop} {hole : Entry → Prop}
    (h : s.Tree) (hlabelled : s.Labelled) (hgrows : Grows region hole s s')
    (hregion : ∀ id e, region id e → ¬ IsDirectory id ∧ e.kind ≠ .nameSpace)
    (hchildren : ∀ n, s.Has (.nameSpace n) → (s'.get n).children = (s.get n).children) :
    s'.Tree := by
  have hold : ∀ {id n}, s'.catalog.find? id = some (.nameSpace n) →
      s.catalog.find? id = some (.nameSpace n) := by
    intro id n hn
    rcases hgrows.catalog.find?_cases hn with hn | hn | ⟨-, hkind, -⟩
    · exact hn
    · exact absurd rfl (hregion _ _ hn).2
    · cases hkind
  have hstay : ∀ {id n}, s.catalog.find? id = some (.nameSpace n) →
      s'.catalog.find? id = some (.nameSpace n) := fun hn =>
    hgrows.catalog.find?_eq_some (fun e he => (hregion _ e he).1 (h.isDirectory hn)) hn
  refine ⟨fun hn => h.isDirectory (hold hn), ?_, ?_⟩
  · intro id n name c hn hc
    rw [hchildren n (hlabelled (hold hn)).has] at hc
    obtain ⟨hname, hplaced⟩ := h.child (hold hn) hc
    exact ⟨hname, hgrows.has hplaced.has, (hgrows.idOf hplaced.has).trans hplaced.idOf,
      hstay hplaced.find?⟩
  · intro id n hn
    rcases h.parent (hold hn) with hroot | ⟨id', n', name, hname, heq, hn', hchild⟩
    · exact Or.inl hroot
    · refine Or.inr ⟨id', n', name, hname, heq, hstay hn', ?_⟩
      rw [hchildren n' (hlabelled hn').has, hchild]

/-- **A namespace without children comes in**: as the root, or as a child that another one gains. -/
theorem Tree.joined {s s' : Store} (h : s.Tree) {id : String} {c : Ref Namespace}
    (hcatalog : ∀ id', s'.catalog.find? id' =
      if id' = id then some (.nameSpace c) else s.catalog.find? id')
    (hempty : (s'.get c).children = .empty) (hdirectory : IsDirectory id)
    (hmove : ∀ {id' m}, s.Placed (.nameSpace m) id' → s'.Placed (.nameSpace m) id')
    (hgain : ∀ {id' m name d}, s.catalog.find? id' = some (.nameSpace m) →
      (s'.get m).children.find? name = some d → (s.get m).children.find? name = some d ∨
        '/' ∉ name.toList ∧ s'.Placed (.nameSpace d) (id' ++ "/" ++ name))
    (hkeep : ∀ {id' m name d}, s.catalog.find? id' = some (.nameSpace m) →
      (s.get m).children.find? name = some d → (s'.get m).children.find? name = some d)
    (hstay : ∀ {id' m}, s.catalog.find? id' = some (.nameSpace m) →
      s'.catalog.find? id' = some (.nameSpace m))
    (hparent : id = rootNamespaceId ∨ ∃ id' n name, '/' ∉ name.toList ∧ id = id' ++ "/" ++ name ∧
      s'.catalog.find? id' = some (.nameSpace n) ∧ (s'.get n).children.find? name = some c) :
    s'.Tree := by
  constructor
  case isDirectory =>
    intro id' m hm
    rw [hcatalog] at hm
    split at hm
    · rename_i heq
      exact heq ▸ hdirectory
    · exact h.isDirectory hm
  case child =>
    intro id' m name d hm hd
    rw [hcatalog] at hm
    split at hm
    · cases hm
      rw [hempty] at hd
      cases hd
    · rcases hgain hm hd with hold | hnew
      · obtain ⟨hname, hplaced⟩ := h.child hm hold
        exact ⟨hname, hmove hplaced⟩
      · exact hnew
  case parent =>
    intro id' m hm
    rw [hcatalog] at hm
    split at hm
    · rename_i heq
      cases hm
      exact heq ▸ hparent
    · rcases h.parent hm with hroot | ⟨id'', n, name, hname, heq, hn, hchild⟩
      · exact Or.inl hroot
      · exact Or.inr ⟨id'', n, name, hname, heq, hstay hn, hkeep hn hchild⟩

/-- The store with a new namespace that has joined its parent. -/
def addChild (s : Store) (n : Ref Namespace) (name : String) (x : Namespace) : Store :=
  (s.register x).1.modify n fun y =>
    { y with children := y.children.insert name (s.register x).2 }

section AddChild

variable {s : Store} {n m : Ref Namespace} {name : String} {x : Namespace}

theorem get_addChild_parent (hn : s.Has (.nameSpace n)) : (s.addChild n name x).get n =
    { s.get n with children := (s.get n).children.insert name (s.register x).2 } := by
  rw [addChild, get_modify_self _ n _ ((has_register_iff s x _).mpr (.inl hn)),
    get_eq_of_content_eq (content_register_of_has x hn)]

theorem get_addChild_of_ne (hm : s.Has (.nameSpace m)) (hne : m ≠ n) :
    (s.addChild n name x).get m = s.get m :=
  get_eq_of_content_eq <| (content_modify_of_ne _ n _ fun heq =>
    hne (Entry.nameSpace.inj heq)).trans (content_register_of_has x hm)

theorem get_addChild_self (hn : s.Has (.nameSpace n)) :
    (s.addChild n name x).get (s.register x).2 = x := by
  have hne : (s.register x).2 ≠ n := fun heq => not_has_register_self s x (heq ▸ hn)
  have hsame : (s.addChild n name x).get (s.register x).2 = (s.register x).1.get _ :=
    get_eq_of_content_eq (content_modify_of_ne _ n _ fun heq => hne (Entry.nameSpace.inj heq))
  rw [hsame, get_register_self]

theorem find?_addChild (id : String) : (s.addChild n name x).catalog.find? id =
    if id = x.id then some (.nameSpace (s.register x).2) else s.catalog.find? id := by
  rw [addChild, catalog_modify, catalog_register, Catalog.find?_insert]
  rfl

end AddChild

end Store

/-- The registrations of namespaces where none is registered. -/
def NewDirectory (s : Store) (id : String) (e : Entry) : Prop :=
  IsDirectory id ∧ e.kind = .nameSpace ∧ ∀ n, s.catalog.find? id ≠ some (.nameSpace n)

namespace Build

open Store

variable {s s' s'' : Store}

/-- Only namespaces have come in, where none were; those that were there have at most gained children
and a description. -/
structure SiteBuilt (s s' : Store) : Prop where
  grows : Grows (NewDirectory s) (fun e => e.kind = .nameSpace) s s'
  backTo : ∀ n, s.Has (.nameSpace n) → (s'.get n).backTo (s.get n).mark = s.get n
  tree : s'.Tree

namespace SiteBuilt

theorem refl (h : s.Tree) : SiteBuilt s s :=
  ⟨.refl s, fun n _ => (s.get n).backTo_mark, h⟩

/-- Registered namespaces stay. -/
theorem find?_nameSpace (h : SiteBuilt s s') {id : String} {n : Ref Namespace}
    (hn : s.catalog.find? id = some (.nameSpace n)) : s'.catalog.find? id = some (.nameSpace n) :=
  h.grows.catalog.find?_eq_some (fun _ he => he.2.2 n hn) hn

theorem trans (h : SiteBuilt s s') (h' : SiteBuilt s' s'') : SiteBuilt s s'' where
  grows := by
    refine h.grows.trans h'.grows ?_ fun _ he _ => he
    rintro id e ⟨hdirectory, hkind, hnone⟩
    exact ⟨hdirectory, hkind, fun n hn => hnone n (h.find?_nameSpace hn)⟩
  backTo n hn := Namespace.backTo_trans (h.backTo n hn) (h'.backTo n (h.grows.has hn))
  tree := h'.tree

theorem placed (h : SiteBuilt s s') {n : Ref Namespace} {id : String}
    (hn : s.Placed (.nameSpace n) id) : s'.Placed (.nameSpace n) id :=
  ⟨h.grows.has hn.has, (h.grows.idOf hn.has).trans hn.idOf, h.find?_nameSpace hn.find?⟩

end SiteBuilt

/-- A namespace that is described has not changed otherwise. -/
theorem siteBuilt_describe (h : s.Tree) (hlabelled : s.Labelled) {n : Ref Namespace}
    (hn : s.Has (.nameSpace n)) (text : String) :
    SiteBuilt s (s.modify n fun x => { x with description := text }) := by
  have hsame : ∀ m : Ref Namespace,
      ((s.modify n fun x => { x with description := text }).get m).children =
        (s.get m).children ∧
      ((s.modify n fun x => { x with description := text }).get m).backTo (s.get m).mark =
        s.get m := by
    intro m
    by_cases heq : m = n
    · subst heq
      rw [get_modify_self s m _ hn]
      exact ⟨rfl, Namespace.backTo_describe _ _⟩
    · have hother := content_modify_of_ne s n
        (fun x : Namespace => { x with description := text })
        (e := .nameSpace m) (fun hentry => heq (Entry.nameSpace.inj hentry))
      rw [show (s.modify n _).get m = s.get m from get_eq_of_content_eq hother]
      exact ⟨rfl, Namespace.backTo_mark _⟩
  have hgrows : Grows nowhere (fun e => e.kind = .nameSpace) s
      (s.modify n fun x => { x with description := text }) := .modify_hole (fun _ => rfl) rfl
  exact ⟨hgrows.mono (fun _ _ => False.elim) fun _ => id, fun m _ => (hsame m).2,
    h.grows hlabelled hgrows (fun _ _ => False.elim) fun m _ => (hsame m).1⟩

/-- The root comes in. -/
theorem siteBuilt_root (h : s.Tree) (hlabelled : s.Labelled) {x : Namespace}
    (hid : x.id = rootNamespaceId) (hchildren : x.children = .empty)
    (hnone : s.catalog.find? rootNamespaceId = none) : SiteBuilt s (s.register x).1 := by
  set s₁ := (s.register x).1
  have hgrows : Grows (NewDirectory s) (fun e => e.kind = .nameSpace) s s₁ := by
    refine .register s fun r => ?_
    rw [show Record.id x = rootNamespaceId from hid]
    exact ⟨Or.inl rfl, rfl, fun n => by rw [hnone]; exact nofun⟩
  have hget : ∀ n, s.Has (.nameSpace n) → s₁.get n = s.get n := fun n hn =>
    get_eq_of_content_eq (content_register_of_has x hn)
  have hcatalog : ∀ id, s₁.catalog.find? id =
      if id = rootNamespaceId then some (.nameSpace (s.register x).2) else s.catalog.find? id := by
    intro id
    rw [catalog_register, Catalog.find?_insert, show Record.id x = rootNamespaceId from hid]
    rfl
  have hstay : ∀ {id n}, s.catalog.find? id = some (.nameSpace n) →
      s₁.catalog.find? id = some (.nameSpace n) := fun hn =>
    hgrows.catalog.find?_eq_some (fun e he => he.2.2 _ hn) hn
  refine ⟨hgrows, fun n hn => by rw [hget n hn, Namespace.backTo_mark], ?_⟩
  refine h.joined hcatalog ?_ (Or.inl rfl) (fun hm => ?_) (fun hm hd => Or.inl ?_)
    (fun hm hd => ?_) hstay (Or.inl rfl)
  · rw [get_register_self, hchildren]
  · exact ⟨hgrows.has hm.has, (hgrows.idOf hm.has).trans hm.idOf, hstay hm.find?⟩
  · rwa [hget _ (hlabelled hm).has] at hd
  · rwa [hget _ (hlabelled hm).has]

/-- A child comes in and joins its parent. -/
theorem siteBuilt_child (h : s.Tree) (hlabelled : s.Labelled) {n : Ref Namespace}
    {above name : String} (hn : s.Placed (.nameSpace n) above) (hname : '/' ∉ name.toList)
    (hnone : (s.get n).children.find? name = none) {x : Namespace}
    (hid : x.id = above ++ "/" ++ name) (hempty : x.children = .empty) :
    SiteBuilt s (s.addChild n name x) ∧
      (s.addChild n name x).Placed (.nameSpace (s.register x).2) (above ++ "/" ++ name) := by
  set ref := (s.register x).2
  have hregister : Grows (NewDirectory s) (fun e => e.kind = .nameSpace) s (s.register x).1 := by
    refine .register s fun r => ?_
    rw [show Record.id x = above ++ "/" ++ name from hid]
    exact ⟨(h.isDirectory hn.find?).child name, rfl, h.isNew hn.find? hname hnone⟩
  have hchange : Grows nowhere (fun e => e.kind = .nameSpace) (s.register x).1
      (s.addChild n name x) := .modify_hole (fun _ => rfl) rfl
  have hgrows := hregister.trans hchange (fun _ _ => False.elim) fun _ he _ => he
  have hstay : ∀ {id m}, s.catalog.find? id = some (.nameSpace m) →
      (s.addChild n name x).catalog.find? id = some (.nameSpace m) := fun hm =>
    hgrows.catalog.find?_eq_some (fun e he => he.2.2 _ hm) hm
  have hplaced : (s.addChild n name x).Placed (.nameSpace ref) (above ++ "/" ++ name) := by
    have hregistered := placed_register s x
    rw [show Record.id x = above ++ "/" ++ name from hid] at hregistered
    exact hregistered.grows hchange fun _ => id
  -- of the registered namespaces only the parent has changed
  refine ⟨⟨hgrows, fun m hm => ?_, ?_⟩, hplaced⟩
  · by_cases heq : m = n
    · subst heq
      rw [get_addChild_parent hm]
      exact Namespace.backTo_addChild _ ref (OrderedMap.find?_eq_none_iff.mp hnone)
    · rw [get_addChild_of_ne hm heq, Namespace.backTo_mark]
  · refine h.joined (fun id => hid ▸ find?_addChild id) ?_ ((h.isDirectory hn.find?).child name)
      (fun hm => ?_) (fun {id m other d} hm hd => ?_) (fun {id m other d} hm hd => ?_) hstay
      (Or.inr ⟨above, n, name, hname, rfl, hstay hn.find?, ?_⟩)
    · rw [get_addChild_self hn.has, hempty]
    · exact ⟨hgrows.has hm.has, (hgrows.idOf hm.has).trans hm.idOf, hstay hm.find?⟩
    · -- the parent alone has gained a child, and that is the new one
      by_cases heq : m = n
      · subst heq
        obtain rfl : id = above := (hlabelled hm).idOf.symm.trans hn.idOf
        rw [get_addChild_parent hn.has] at hd
        by_cases hlast : other = name
        · subst hlast
          rw [OrderedMap.find?_insert_self] at hd
          cases hd
          exact Or.inr ⟨hname, hplaced⟩
        · rw [OrderedMap.find?_insert_of_ne _ hlast] at hd
          exact Or.inl hd
      · rw [get_addChild_of_ne (hlabelled hm).has heq] at hd
        exact Or.inl hd
    · by_cases heq : m = n
      · subst heq
        have hlast : other ≠ name := by
          rintro rfl
          rw [hnone] at hd
          cases hd
        rw [get_addChild_parent hn.has]
        exact (OrderedMap.find?_insert_of_ne _ hlast).trans hd
      · rwa [get_addChild_of_ne (hlabelled hm).has heq]
    · rw [get_addChild_parent hn.has]
      exact OrderedMap.find?_insert_self _ _ _

/-! ## Finding the namespace of a file -/

/-- The entry is the namespace of the identifier, or nothing that has a description. -/
def IsSpace (id : String) (e : Entry) (s : Store) : Prop :=
  (∃ n, e = .nameSpace n ∧ s.Placed (.nameSpace n) id) ∨ s.descriptionOf? e = none

theorem rootNamespace_built (h : s.Tree) (hlabelled : s.Labelled)
    (hroot : ∀ e, s.catalog.find? rootNamespaceId = some e →
      e.kind = .nameSpace ∨ s.descriptionOf? e = none) :
    Ensures rootNamespace s (SiteBuilt s) (IsSpace rootNamespaceId) := by
  unfold rootNamespace
  rw [ensures_bind_get]
  split
  · rename_i e he
    refine .pure (.refl h) ?_
    rcases hroot e he with hkind | hnone
    · cases e with
      | nameSpace n => exact Or.inl ⟨n, rfl, hlabelled he⟩
      | _ => cases hkind
    · exact Or.inr hnone
  · rename_i hnone
    rw [ensures_bind_register]
    exact .pure (siteBuilt_root h hlabelled rfl rfl hnone) (Or.inl ⟨_, rfl, placed_register s _⟩)

theorem childNamespace_built (h : s.Tree) (hlabelled : s.Labelled) {id name : String} {e : Entry}
    (he : IsSpace id e s) (hname : '/' ∉ name.toList) :
    Ensures (childNamespace e name) s (SiteBuilt s) (IsSpace (id ++ "/" ++ name)) := by
  unfold childNamespace
  split
  · rename_i n
    rcases he with ⟨n', hsame, hn⟩ | hnone
    · cases hsame
      rw [ensures_bind_read]
      split
      · rename_i c hc
        exact .pure (.refl h) (Or.inl ⟨c, rfl, (h.child hn.find? hc).2⟩)
      · rename_i hnone
        rw [ensures_bind_register, ensures_bind_change]
        have hid : (s.get n).id = id := hn.idOf
        obtain ⟨hbuilt, hplaced⟩ := siteBuilt_child h hlabelled hn hname hnone
          (x := { id := (s.get n).id ++ "/" ++ name, name, parentId := some (s.get n).id })
          (by rw [hid]) rfl
        exact .pure hbuilt (Or.inl ⟨_, rfl, hplaced⟩)
    · cases hnone
  · exact .throw (.refl h)

theorem descend_built (h : s.Tree) (hlabelled : s.Labelled) {top : String} {e : Entry}
    (he : IsSpace top e s) {names : List String} (hnames : ∀ name ∈ names, '/' ∉ name.toList) :
    Ensures (descend e names) s (SiteBuilt s)
      (IsSpace (names.foldl (fun id name => id ++ "/" ++ name) top)) := by
  induction names generalizing s top e with
  | nil => exact .pure (.refl h) he
  | cons name names ih =>
      refine .bind (childNamespace_built h hlabelled he (hnames name (List.mem_cons_self ..))) ?_
      intro e' s' hbuilt he'
      exact (ih hbuilt.tree (hlabelled.grows hbuilt.grows) he'
        fun other hother => hnames other (List.mem_cons_of_mem _ hother)).weaken
        (fun _ h' => hbuilt.trans h') fun _ _ _ => id

/-- **The namespace of a file is there, or comes in with all that lie above it.** -/
theorem namespaceOf_built (h : s.Tree) (hlabelled : s.Labelled)
    (hroot : ∀ e, s.catalog.find? rootNamespaceId = some e →
      e.kind = .nameSpace ∨ s.descriptionOf? e = none) {file : Path}
    (hnames : ∀ name ∈ file.names, '/' ∉ name.toList) (readMe : ReadMe) :
    Ensures (namespaceOf file readMe) s (SiteBuilt s) fun e s' =>
      ∃ n, e = .nameSpace n ∧ s'.Placed (.nameSpace n) (directoryId file.parent.names) := by
  have hparents : ∀ name ∈ file.parent.names, '/' ∉ name.toList := fun name hname =>
    hnames name (file.names.dropLast_sublist.subset hname)
  unfold namespaceOf
  refine .bind (rootNamespace_built h hlabelled hroot) fun e s₁ h₁ he => ?_
  have hlabelled₁ := hlabelled.grows h₁.grows
  refine .bind ((descend_built h₁.tree hlabelled₁ he hparents).weaken
    (fun _ h' => h₁.trans h') fun _ _ _ => id) fun e s₂ h₂ he => ?_
  have hlabelled₂ := hlabelled.grows h₂.grows
  rw [ensures_bind_get]
  refine ensures_bind_some? h₂ fun description hdescription => ?_
  -- what has a description is a namespace
  have hspace : ∃ n, e = .nameSpace n ∧
      s₂.Placed (.nameSpace n) (directoryId file.parent.names) := by
    rcases he with he | hnone
    · exact he
    · rw [hnone] at hdescription
      cases hdescription
  split
  · split
    · exact .pure h₂ hspace
    · refine ensures_bind_check h₂ fun text _ => ?_
      obtain ⟨n, rfl, hn⟩ := hspace
      rw [ensures_bind_modify]
      have hdescribed := siteBuilt_describe h₂.tree hlabelled₂ hn.has text
      exact .pure (h₂.trans hdescribed) ⟨n, rfl, hdescribed.placed hn⟩
  · exact .pure h₂ hspace

theorem site_built (h : s.Tree) (hlabelled : s.Labelled)
    (hroot : ∀ e, s.catalog.find? rootNamespaceId = some e →
      e.kind = .nameSpace ∨ s.descriptionOf? e = none) {file : Path}
    (hnames : ∀ name ∈ file.names, '/' ∉ name.toList) (excluded : List String) (readMe : ReadMe) :
    Ensures (site file excluded readMe) s (SiteBuilt s) fun x s' =>
      x.file = file.toString ∧ x.excluded = excluded.map stripSigil ∧
        ∃ n, x.nameSpace = .nameSpace n ∧
          s'.Placed (.nameSpace n) (directoryId file.parent.names) := by
  unfold site
  refine .bind (namespaceOf_built h hlabelled hroot hnames readMe) fun e s' hbuilt he => ?_
  exact .pure hbuilt ⟨rfl, rfl, he⟩

/-! ## Where there is no tree

Even if other things have taken the place of namespaces, nothing but namespaces comes in. -/

/-- Nothing but namespaces has come in or changed. -/
def OnlySpaces (s s' : Store) : Prop :=
  Grows (fun _ e => e.kind = .nameSpace) (fun e => e.kind = .nameSpace) s s'

theorem OnlySpaces.refl (s : Store) : OnlySpaces s s :=
  Grows.refl s

theorem OnlySpaces.trans (h : OnlySpaces s s') (h' : OnlySpaces s' s'') : OnlySpaces s s'' :=
  Grows.trans h h' (fun _ _ => id) fun _ he _ => he

theorem onlySpaces_register (s : Store) (x : Namespace) : OnlySpaces s (s.register x).1 :=
  Grows.register s fun _ => rfl

theorem onlySpaces_modify (s : Store) (n : Ref Namespace) {f : Namespace → Namespace}
    (hid : ∀ x, (f x).id = x.id) : OnlySpaces s (s.modify n f) :=
  Grows.modify_hole hid rfl

/-- The entry is a namespace, or nothing that has a description. -/
def SpaceOrBare (e : Entry) (s : Store) : Prop :=
  e.kind = .nameSpace ∨ s.descriptionOf? e = none

theorem childNamespace_only (e : Entry) (name : String) :
    Ensures (childNamespace e name) s (OnlySpaces s) SpaceOrBare := by
  unfold childNamespace
  split
  · rename_i n
    rw [ensures_bind_read]
    split
    · exact .pure (.refl s) (Or.inl rfl)
    · rw [ensures_bind_register, ensures_bind_change]
      refine .pure ?_ (Or.inl rfl)
      exact (onlySpaces_register s _).trans (onlySpaces_modify _ n fun _ => rfl)
  · exact .throw (.refl s)

theorem descend_only {e : Entry} (he : SpaceOrBare e s) (names : List String) :
    Ensures (descend e names) s (OnlySpaces s) SpaceOrBare := by
  induction names generalizing s e with
  | nil => exact .pure (.refl s) he
  | cons name names ih =>
      refine .bind (childNamespace_only e name) fun e' s' hgrown he' => ?_
      exact (ih he').weaken (fun _ h' => hgrown.trans h') fun _ _ _ => id

theorem namespaceOf_only (hroot : ∀ e, s.catalog.find? rootNamespaceId = some e → SpaceOrBare e s)
    (file : Path) (readMe : ReadMe) :
    Ensures (namespaceOf file readMe) s (OnlySpaces s) fun _ _ => True := by
  have hstart : Ensures rootNamespace s (OnlySpaces s) SpaceOrBare := by
    unfold rootNamespace
    rw [ensures_bind_get]
    split
    · rename_i e he
      exact .pure (.refl s) (hroot e he)
    · rw [ensures_bind_register]
      exact .pure (onlySpaces_register s _) (Or.inl rfl)
  unfold namespaceOf
  refine .bind hstart fun e s₁ h₁ he => ?_
  refine .bind ((descend_only he file.parent.names).weaken (fun _ h' => h₁.trans h')
    fun _ _ _ => id) fun e s₂ h₂ he => ?_
  rw [ensures_bind_get]
  refine ensures_bind_some? h₂ fun description hdescription => ?_
  have hspace : e.kind = .nameSpace := by
    refine he.resolve_right fun hnone => ?_
    rw [hnone] at hdescription
    cases hdescription
  split
  · split
    · exact .pure h₂ trivial
    · refine ensures_bind_check h₂ fun text _ => ?_
      rw [ensures_bind_modify]
      refine .pure (h₂.trans ?_) trivial
      cases e with
      | nameSpace n => exact onlySpaces_modify s₂ n fun _ => rfl
      | _ => cases hspace
  · exact .pure h₂ trivial

theorem site_only (hroot : ∀ e, s.catalog.find? rootNamespaceId = some e → SpaceOrBare e s)
    (file : Path) (excluded : List String) (readMe : ReadMe) :
    Ensures (site file excluded readMe) s (OnlySpaces s) fun x _ => x.file = file.toString := by
  unfold site
  exact .bind (namespaceOf_only hroot file readMe) fun e s' hgrown _ => .pure hgrown rfl

end Build

end StepTrace
