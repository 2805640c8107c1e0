import StepTrace.Proofs.Registry.Wellformed
import StepTrace.Proofs.Rollback.Kept
import StepTrace.Proofs.Twins.Build

/-!
# Registries that are the same but for places

On exact terms twins agree on everything: the same identifiers are registered in the same order, of
all kinds and of each kind, tags are equal, and namespaces have the same children
(`Terms.exact`).  These terms are lawful, and on them the whole build of a file follows itself, the
search for its namespace included (`feature_follows`).

Going back to a snapshot leaves more records behind than there were, but none of them is registered;
so a registry that was restored is still the twin of what it was the twin of (`Twins.restored`).
-/

namespace StepTrace

open Store HeapRecord

/-! ## Ordered maps with the same keys -/

namespace OrderedMap

variable {κ α β : Type} {R R' : α → β → Prop} {m : OrderedMap κ α} {m' : OrderedMap κ β} {key : κ}
variable {a : α} {b : β}

/-- The maps have the same keys in the same order, and related values. -/
def Match (R : α → β → Prop) (m : OrderedMap κ α) (m' : OrderedMap κ β) : Prop :=
  List.Forall₂ (fun x y => x.1 = y.1 ∧ R x.2 y.2) m.entries m'.entries

theorem Match.imp (h : m.Match R m') (hR : ∀ a b, R a b → R' a b) : m.Match R' m' :=
  List.Forall₂.imp (fun _ _ hxy => ⟨hxy.1, hR _ _ hxy.2⟩) h

theorem Match.keys (h : m.Match R m') : m.keys = m'.keys := by
  unfold Match at h
  unfold OrderedMap.keys
  generalize m.entries = xs, m'.entries = ys at h
  induction h with
  | nil => rfl
  | cons hxy _ ih => rw [List.map_cons, List.map_cons, hxy.1, ih]

variable [DecidableEq κ]

theorem Match.find? (h : m.Match R m') (key : κ) : Option.Rel R (m.find? key) (m'.find? key) := by
  unfold Match at h
  unfold OrderedMap.find?
  generalize m.entries = xs, m'.entries = ys at h
  induction h with
  | nil => exact .none
  | @cons x y _ _ hxy _ ih =>
      simp only [List.find?_cons, ← hxy.1]
      by_cases hkey : x.1 = key
      · simp only [hkey, decide_true]
        exact .some hxy.2
      · simpa only [hkey, decide_false] using ih

/-- It is enough that the relation goes on where there is something to be found. -/
theorem Match.imp_of_find? (h : m.Match R m') (hnodup : m'.keys.Nodup)
    (hR : ∀ key a b, m'.find? key = some b → R a b → R' a b) : m.Match R' m' := by
  have hfound : ∀ x ∈ m'.entries, m'.find? x.1 = some x.2 := fun x hx =>
    find?_eq_some_of_mem hnodup hx
  unfold Match at h ⊢
  generalize m.entries = xs, m'.entries = ys at h hfound
  induction h with
  | nil => exact .nil
  | @cons x y _ _ hxy _ ih =>
      obtain ⟨hy, hrest⟩ := List.forall_mem_cons.mp hfound
      exact .cons ⟨hxy.1, hR _ _ _ hy hxy.2⟩ (ih hrest)

theorem Match.insert (h : m.Match R m') (key : κ) (hab : R a b) :
    (m.insert key a).Match R (m'.insert key b) := by
  have hcontains : m.contains key = m'.contains key := by
    rw [Bool.eq_iff_iff, contains_iff, contains_iff, h.keys]
  unfold OrderedMap.insert
  rw [hcontains]
  split
  · refine List.forall₂_map_left_iff.mpr (List.forall₂_map_right_iff.mpr (List.Forall₂.imp ?_ h))
    intro x y hxy
    rw [← hxy.1]
    split
    · exact ⟨rfl, hab⟩
    · exact hxy
  · exact List.rel_append h (.cons ⟨rfl, hab⟩ .nil)

theorem Match.erase (h : m.Match R m') (key : κ) : (m.erase key).Match R (m'.erase key) := by
  refine List.rel_filter ?_ h
  intro x y hxy
  simp only [ne_eq, decide_not, Bool.not_eq_true', decide_eq_false_iff_not, hxy.1]

end OrderedMap

/-! ## The same catalogs -/

/-- What is registered is the same, in all orders. -/
structure Catalog.Match (ρ : Pairing) (c c' : Catalog) : Prop where
  entries : c.entries.Match ρ c'.entries
  index : ∀ kind, (c.index kind).Match ρ (c'.index kind)

/-- The order of one kind stays the same, whatever the others are. -/
theorem Catalog.match_index_insert {ρ : Pairing} {c c' : Catalog} {kind : Kind} {id : String}
    {e e' : Entry} (h : (c.index kind).Match ρ (c'.index kind))
    (hkind : ∀ e e', ρ e e' → e.kind = e'.kind) (hfind : Option.Rel ρ (c.find? id) (c'.find? id))
    (he : ρ e e') : ((c.insert id e).index kind).Match ρ ((c'.insert id e').index kind) := by
  have hold : (c.find? id).map Entry.kind = (c'.find? id).map Entry.kind := by
    generalize c.find? id = found, c'.find? id = found' at hfind
    cases hfind with
    | some he => exact congrArg some (hkind _ _ he)
    | none => rfl
  rw [index_insert, index_insert, hkind _ _ he, hold]
  split
  · exact h.insert id he
  · split
    · exact h.erase id
    · exact h

namespace Catalog.Match

variable {ρ σ : Pairing} {c c' : Catalog}

theorem imp (h : c.Match ρ c') (hle : ρ ≤ σ) : c.Match σ c' :=
  ⟨h.entries.imp hle, fun kind => (h.index kind).imp hle⟩

theorem find? (h : c.Match ρ c') (id : String) : Option.Rel ρ (c.find? id) (c'.find? id) :=
  h.entries.find? id

theorem insert (h : c.Match ρ c') (hkind : ∀ e e', ρ e e' → e.kind = e'.kind) (id : String)
    {e e' : Entry} (he : ρ e e') : (c.insert id e).Match ρ (c'.insert id e') := by
  refine ⟨?_, fun kind => match_index_insert (h.index kind) hkind (h.find? id) he⟩
  rw [entries_insert, entries_insert]
  exact h.entries.insert id he

end Catalog.Match

/-! ## Exact terms -/

/-- The namespaces are equal but for the places of their children. -/
structure Namespace.Alike (ρ : Pairing) (x y : Namespace) : Prop where
  bare : { x with children := .empty } = ({ y with children := .empty } : Namespace)
  children : x.children.Match (fun a b => ρ (.nameSpace a) (.nameSpace b)) y.children
  nodup : x.children.keys.Nodup
  directory : IsDirectory x.id

/-- Twins on exact terms are the same but for places. -/
def Terms.exact : Terms where
  file := PlainName
  part id := ∃ file, PlainName file ∧ Under file id
  tag x y := x = y
  nameSpace := Namespace.Alike
  links := Eq
  catalog ρ s t := s.catalog.Match ρ t.catalog

section

variable {ρ σ : Pairing} {x y : Namespace}

theorem Namespace.Alike.id_eq (h : x.Alike ρ y) : x.id = y.id :=
  (congrArg Namespace.id h.bare :)

theorem Namespace.Alike.mono (hle : ρ ≤ σ) (h : x.Alike ρ y) : x.Alike σ y :=
  ⟨h.bare, h.children.imp fun _ _ => hle _ _, h.nodup, h.directory⟩

end

theorem Terms.exact_lawful : Terms.exact.Lawful where
  file_part hfile := ⟨_, hfile, .refl _⟩
  not_tag := by
    rintro id ⟨file, hfile, hunder⟩
    exact hfile.no_tag_under hunder
  part := by
    rintro id label ⟨file, hfile, hunder⟩ hlabel
    exact ⟨file, hfile, hunder.trans (under_part id hlabel)⟩
  tag_id := by
    rintro x _ rfl
    rfl
  addSite := by
    rintro x _ site rfl
    rfl
  giveOwner := by
    rintro x _ id rfl _
    rfl
  addCount := by
    rintro x _ n rfl
    rfl
  nameSpace_id := Namespace.Alike.id_eq
  nameSpace_mono := Namespace.Alike.mono
  listFeature {_ x y id} h _ := by
    have hids : x.featureIds = y.featureIds := (congrArg Namespace.featureIds h.bare :)
    refine ⟨?_, h.children, h.nodup, h.directory⟩
    rw [hids]
    exact congrArg (fun z : Namespace => { z with featureIds := joinName y.featureIds id }) h.bare
  catalog_add x y h hle := by
    change Catalog.Match _ (Store.add _ x).1.catalog (Store.add _ y).1.catalog
    rw [catalog_add, catalog_add]
    exact Catalog.Match.imp h.catalog hle
  catalog_enter h hr hid _ := by
    change Catalog.Match _ (Store.enter _ _).catalog (Store.enter _ _).catalog
    rw [catalog_enter, catalog_enter, hid]
    exact Catalog.Match.insert h.catalog (fun _ _ he => h.kind_eq he) _ hr
  catalog_modify f g h hr := by
    change Catalog.Match _ (Store.modify _ _ f).catalog (Store.modify _ _ g).catalog
    rw [catalog_modify, catalog_modify]
    exact h.catalog

namespace Build

open Follows

variable {ρ : Pairing}

/-- A tag that comes in comes in on both sides. -/
theorem tagOf_exact (ρ : Pairing) (token : Value) :
    Follows .exact ρ SameEntry (tagOf token) (tagOf token) := by
  intro s t htwins
  have hfound := Catalog.Match.find? htwins.catalog (tagId token.display)
  rw [run_tagOf, run_tagOf]
  generalize hs : s.catalog.find? (tagId token.display) = found,
    t.catalog.find? (tagId token.display) = found' at hfound
  cases hfound with
  | some he => exact (Follows.pure he : Follows .exact ρ SameEntry _ _) s t htwins
  | none =>
      cases token with
      | text name =>
          refine ⟨?_, nofun⟩
          rintro _ _ ⟨⟩
          refine ⟨_, _, _, rfl, ρ.le_and _ _, ?_, ρ.and_self _ _⟩
          refine htwins.register_tag Terms.exact_lawful (isTag_tagId name) hs rfl ?_
          change Catalog.Match _ (Store.register _ _).1.catalog (Store.register _ _).1.catalog
          rw [catalog_register, catalog_register]
          refine (Catalog.Match.imp htwins.catalog (ρ.le_and _ _)).insert ?_ _ (ρ.and_self _ _)
          rintro e e' (he | ⟨rfl, rfl⟩)
          · exact htwins.kind_eq he
          · rfl
      | _ => exact (Follows.throw _ : Follows .exact ρ SameEntry _ _) s t htwins

end Build

theorem Terms.exact_complete : Terms.exact.Complete :=
  { exact_lawful with tagOf := Build.tagOf_exact }

/-! ## Namespaces -/

/-- The description of a record, if its type has one. -/
def Content.description? : Content → Option Value
  | nameSpace x => some (.text x.description)
  | feature x => some x.description
  | scenario x => some x.description
  | outline x => some x.description
  | examples x => some x.description
  | _ => none

theorem Store.descriptionOf?_eq (s : Store) (e : Entry) :
    s.descriptionOf? e = (s.content e).description? := by
  cases e <;> rfl

theorem Content.Alike.description? {ρ : Pairing} {c c' : Content} (h : c.Alike .exact ρ c') :
    c.description? = c'.description? := by
  cases h with
  | nameSpace h => exact congrArg (some ∘ Value.text) (congrArg Namespace.description h.bare :)
  | feature _ h => exact congrArg some (congrArg Feature.description h.bare :)
  | scenario _ h => exact congrArg some (congrArg Scenario.description h.bare :)
  | outline _ h => exact congrArg some (congrArg Outline.description h.bare :)
  | examples _ h => exact congrArg some (congrArg Examples.description h.bare :)
  | step | tag | definition | transform => rfl

theorem Twins.describe {ρ : Pairing} {s t : Store} (h : Twins .exact ρ s t) {e e' : Entry}
    (he : ρ e e') (text : String) : Twins .exact ρ (s.describe e text) (t.describe e' text) := by
  have hkind := h.kind_eq he
  cases e <;> cases e' <;> first | cases hkind; done | skip
  case nameSpace.nameSpace =>
    refine h.modify Terms.exact_lawful he fun | .nameSpace hx => .nameSpace ?_
    exact ⟨congrArg (fun x : Namespace => { x with description := text }) hx.bare, hx.children,
      hx.nodup, hx.directory⟩
  case feature.feature =>
    refine h.modify Terms.exact_lawful he fun | .feature hid hx => .feature hid ?_
    exact ⟨congrArg (fun x : Feature => { x with description := .text text }) hx.bare, hx.tags,
      hx.scenarios, hx.background⟩
  case scenario.scenario =>
    refine h.modify Terms.exact_lawful he fun | .scenario hid hx => .scenario hid ?_
    exact ⟨congrArg (fun x : Scenario => { x with description := .text text }) hx.bare, hx.steps,
      hx.tags⟩
  case outline.outline =>
    refine h.modify Terms.exact_lawful he fun | .outline hid hx => .outline hid ?_
    exact ⟨congrArg (fun x : Outline => { x with description := .text text }) hx.bare, hx.steps,
      hx.tags, hx.examples, hx.scenarios⟩
  case examples.examples =>
    refine h.modify Terms.exact_lawful he fun | .examples hid hx => .examples hid ?_
    exact ⟨congrArg (fun x : Examples => { x with description := .text text }) hx.bare, hx.tags⟩
  all_goals exact h

namespace Build

open Follows

variable {ρ : Pairing} {e e' : Entry}

theorem registerNamespace_follows {x : Namespace} (hid : IsDirectory x.id)
    (hempty : x.children = .empty) : Follows .exact ρ SameRef (register x) (register x) := by
  intro s t htwins
  refine ⟨?_, nofun⟩
  rintro _ _ ⟨⟩
  refine ⟨_, _, _, rfl, ρ.le_and _ _, ?_, ρ.and_self _ _⟩
  have hx : x.Alike ρ x := ⟨rfl, by rw [hempty]; exact .nil, by rw [hempty]; exact .nil, hid⟩
  have hadd := htwins.add Terms.exact_lawful (x := x) (y := x) (.nameSpace hx) nofun
  have hget (s : Store) : Record.id ((s.add x).1.get (s.add x).2) = x.id :=
    congrArg Namespace.id (get_add_self s x)
  have hfree : ¬ IsTag (Record.id ((s.add x).1.get (s.add x).2)) := by
    rw [hget]
    exact IsDirectory.not_isTag hid
  refine hadd.enter_of Terms.exact_lawful (ρ.and_self _ _) hfree ?_
  have hmatch := Catalog.Match.insert hadd.catalog (fun _ _ he => hadd.kind_eq he) x.id
    (ρ.and_self _ _)
  change Catalog.Match _ (Store.enter _ _).catalog (Store.enter _ _).catalog
  rw [catalog_enter, catalog_enter]
  exact (hget s).symm ▸ (hget t).symm ▸ hmatch

theorem rootNamespace_eq (s : Store) :
    rootNamespace.run s = match s.catalog.find? rootNamespaceId with
      | some e => (.ok e, s)
      | none => (do
          let r ← register { id := rootNamespaceId, name := rootNamespaceId : Namespace }
          return .nameSpace r : Build Entry).run s := by
  unfold rootNamespace
  rw [Action.run_bind_ok (show (get : Build Store).run s = (.ok s, s) from rfl)]
  cases s.catalog.find? rootNamespaceId <;> rfl

theorem rootNamespace_follows : Follows .exact ρ SameEntry rootNamespace rootNamespace := by
  intro s t htwins
  have hfound := Catalog.Match.find? htwins.catalog rootNamespaceId
  rw [rootNamespace_eq, rootNamespace_eq]
  generalize s.catalog.find? rootNamespaceId = found, t.catalog.find? rootNamespaceId = found'
    at hfound
  cases hfound with
  | some he => exact (Follows.pure he : Follows .exact ρ SameEntry _ _) s t htwins
  | none =>
      refine (Follows.bind (registerNamespace_follows ?_ ?_) fun σ r r' _ hr => .pure hr :
        Follows .exact ρ SameEntry _ _) s t htwins
      · exact Or.inl rfl
      · rfl

theorem childNamespace_follows (he : ρ e e') (name : String) :
    Follows .exact ρ SameEntry (childNamespace e name) (childNamespace e' name) := by
  refine .of_twins fun s t htwins => ?_
  have hkind := htwins.kind_eq he
  unfold childNamespace
  cases e <;> cases e' <;> first | cases hkind; done | skip
  case nameSpace.nameSpace n n' =>
    refine .read_bind he fun x y halike => ?_
    cases halike with
    | nameSpace hx =>
        have hfound := hx.children.find? name
        rw [← hx.id_eq]
        generalize x.children.find? name = found, y.children.find? name = found' at hfound
        cases hfound with
        | some hc => exact .pure hc
        | none =>
            refine .bind (registerNamespace_follows (hx.directory.child name) rfl) ?_
            intro σ c c' hle hc
            refine .bind (.change Terms.exact_lawful (hle _ _ he) fun _ _ => fun
              | .nameSpace hx => .nameSpace ?_) fun σ' _ _ hle' _ => .pure (hle' _ _ hc)
            exact ⟨hx.bare, hx.children.insert name hc, OrderedMap.nodup_keys_insert hx.nodup _ _,
              hx.directory⟩
  all_goals exact .throw _

theorem descend_follows (he : ρ e e') (names : List String) :
    Follows .exact ρ SameEntry (descend e names) (descend e' names) := by
  induction names generalizing ρ e e' with
  | nil => exact .pure he
  | cons name names ih => exact .bind (childNamespace_follows he name) fun σ e e' _ he => ih he

theorem namespaceOf_follows (file : Path) (readMe : ReadMe) :
    Follows .exact ρ SameEntry (namespaceOf file readMe) (namespaceOf file readMe) := by
  unfold namespaceOf
  refine .bind rootNamespace_follows fun σ e e' _ he => ?_
  refine .bind (descend_follows he _) fun σ e e' _ he => .get_bind fun s t htwins => ?_
  have hdescription : s.descriptionOf? e = t.descriptionOf? e' := by
    rw [Store.descriptionOf?_eq, Store.descriptionOf?_eq]
    exact (htwins.content he).description?
  rw [hdescription]
  refine .some?_bind (P := Eq) (by cases t.descriptionOf? e' <;> constructor; rfl) ?_
  rintro text _ rfl
  split
  · cases readMe with
    | none => exact .pure he
    | some text =>
        refine .check_bind fun text _ => ?_
        refine .bind (.modifies fun s t htwins => htwins.describe he text) ?_
        exact fun σ _ _ hle _ => .pure (hle _ _ he)
  · exact .pure he

/-- **The build of a file goes the same way on registries that are the same but for places.** -/
theorem feature_follows {file : Path} (hfile : PlainName file.toString) (content : Value)
    (excluded : List String) (readMe : ReadMe) :
    Follows .exact ρ (fun σ a b => Option.Rel (SameRef σ) a b)
      (feature file content excluded readMe) (feature file content excluded readMe) := by
  unfold feature site
  simp only [bind_assoc, pure_bind]
  refine .bind (namespaceOf_follows file readMe) fun σ e e' _ he => ?_
  exact document_follows Terms.exact_complete hfile he content

end Build

/-! ## Going back -/

namespace Twins

variable {ρ : Pairing} {s t t' : Store}

/-- The empty registry is its own twin. -/
theorem exact_empty : Twins .exact (fun _ _ => False) {} {} where
  biUnique := ⟨fun _ _ _ h => h.elim, fun _ _ _ h => h.elim⟩
  has := False.elim
  content := False.elim
  tags := False.elim
  catalog := ⟨.nil, fun _ => .nil⟩

/-- **A registry that was restored is still the twin of what it was the twin of.**  Of the
namespaces only those that are registered go back, so only these stay paired. -/
theorem restored (h : Twins .exact ρ s t) (ht : Pure t) (hback : Restored t t') :
    ∃ σ, ρ.LeParts σ ∧ Twins .exact σ s t' := by
  let σ : Pairing := fun e e' =>
    ρ e e' ∧ (e.kind = .nameSpace → ∃ id, t.catalog.find? id = some e')
  have hle : ρ.LeParts σ := fun e e' hkind he => ⟨he, fun hspace => absurd hspace hkind⟩
  have hfound : ∀ id e e', t.catalog.find? id = some e' → ρ e e' → σ e e' :=
    fun id e e' hid he => ⟨he, fun _ => ⟨id, hid⟩⟩
  have hcontent : ∀ {e e'}, σ e e' → (s.content e).Alike .exact σ (t'.content e') := by
    rintro e e' ⟨he, hspace⟩
    have halike := h.content he
    have hkind := h.kind_eq he
    cases e <;> cases e' <;> first | cases hkind; done | skip
    case nameSpace.nameSpace n n' =>
      obtain ⟨id, hid⟩ := hspace rfl
      rw [hback.registered hid]
      cases halike with
      | nameSpace hx =>
          have hnodup : (t.get n').children.keys.Nodup := hx.children.keys ▸ hx.nodup
          refine .nameSpace ⟨hx.bare, hx.children.imp_of_find? hnodup ?_, hx.nodup, hx.directory⟩
          -- the children of a registered namespace are registered
          exact fun name c c' hc => hfound _ _ _ (ht.tree.child hid hc).2.find?
    case tag.tag a b =>
      obtain ⟨id, -, -, hb⟩ := h.tags he
      rw [hback.registered hb]
      exact halike.imp hle nofun
    all_goals
      rw [hback.content (h.has he).2 nofun nofun]
      exact halike.imp hle nofun
  refine ⟨σ, hle, ⟨⟨fun _ _ _ he he' => h.biUnique.1 he.1 he'.1,
    fun _ _ _ he he' => h.biUnique.2 he.1 he'.1⟩, fun he => ?_, hcontent, ?_⟩, fun hab => ?_⟩
  · exact ⟨(h.has he.1).1, hback.has (h.has he.1).2⟩
  · refine ⟨?_, fun kind => ?_⟩
    · rw [hback.entries]
      exact (Catalog.Match.entries h.catalog).imp_of_find? ht.consistent.nodup hfound
    · rw [hback.index]
      refine (Catalog.Match.index h.catalog kind).imp_of_find? (ht.consistent.nodup_index kind) ?_
      exact fun id e e' hid => hfound id e e' (ht.consistent.index_find?.mp hid).1
  · obtain ⟨id, hid, ha, hb⟩ := h.tags hab.1
    exact ⟨id, hid, ha, by rw [hback.find?, hb]⟩

end Twins

end StepTrace
