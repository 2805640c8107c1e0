import StepTrace.Proofs.Registry.Builds
import StepTrace.Proofs.Twins.Build

/-!
# The build of a document beside others

What a document brings to a registry does not depend on what is there already.  The build on a
registry with other documents, the *base*, is compared with the lone build of the document: the parts
of the document are the same, and what the two share with others differs by the base alone.  A tag has
what it had in the base and what it has in the lone build (`Tag.join`), the namespace of the file lists
what it listed and what it lists there.

On these terms the whole build of a document follows the lone one (`document_beside`): whether a tag
comes in or was there already makes no difference to anything else, and neither does an earlier
document of the same file, of which what is not registered anew stays as it was.
-/

namespace StepTrace

open Store HeapRecord

/-! ## Names that come together -/

/-- The names with more of them, each once. -/
def joinNames (names more : List String) : List String :=
  names ++ more.filter fun name => name ∉ names

theorem mem_joinName {names : List String} {name other : String} :
    other ∈ joinName names name ↔ other ∈ names ∨ other = name := by
  unfold joinName
  split <;> simp_all

/-- One name after the others. -/
theorem joinName_joinNames (names more : List String) (name : String) :
    joinName (joinNames names more) name = joinNames names (joinName more name) := by
  by_cases hold : name ∈ names
  · by_cases hmore : name ∈ more <;> simp [joinName, joinNames, hold, hmore]
  · by_cases hmore : name ∈ more <;> simp [joinName, joinNames, hold, hmore]

theorem joinNames_of_disjoint {names more : List String} (h : ∀ name ∈ names, name ∉ more) :
    joinNames names more = names ++ more := by
  rw [joinNames, List.filter_eq_self.mpr fun name hmore => ?_]
  simpa using fun hold => h name hold hmore

theorem joinNames_of_subset {names more : List String} (h : more ⊆ names) :
    joinNames names more = names := by
  rw [joinNames, List.filter_eq_nil_iff.mpr fun name hmore => ?_, List.append_nil]
  simpa using h hmore

/-! ## Tags that come together -/

namespace Tag

/-- The tag with what another document has told of it. -/
def plus (x y : Tag) : Tag :=
  { x with
    owners := x.owners ++ y.owners
    sites := x.sites ++ y.sites
    totalScenarios := x.totalScenarios + y.totalScenarios }

/-- The tag on top of what was there. -/
def onto (y : Tag) (old : Option Tag) : Tag :=
  old.elim y fun x => x.plus y

/-- The tag with what another document has told of it, each owner once. -/
def join (x y : Tag) : Tag :=
  { x with
    owners := joinNames x.owners y.owners
    sites := x.sites ++ y.sites
    totalScenarios := x.totalScenarios + y.totalScenarios }

/-- The tag joined to what was there. -/
def joinedTo (y : Tag) (old : Option Tag) : Tag :=
  old.elim y fun x => x.join y

/-- The identifier and the name are those of the token. -/
structure IsCanonical (x : Tag) : Prop where
  id : x.id = tagId x.value
  name : x.name = stripSigil x.value

theorem isCanonical_ofToken (token : String) : (ofToken token).IsCanonical :=
  ⟨rfl, rfl⟩

theorem IsCanonical.isTag {x : Tag} (h : x.IsCanonical) : IsTag x.id := by
  rw [h.id]
  exact isTag_tagId _

/-- A tag that has just come in adds nothing. -/
theorem join_ofToken (x : Tag) (token : String) : x.join (ofToken token) = x := by
  simp [join, joinNames, ofToken]

/-- Owners that are all new come behind the others. -/
theorem join_eq_plus {x y : Tag} (h : ∀ owner ∈ x.owners, owner ∉ y.owners) :
    x.join y = x.plus y := by
  rw [join, plus, joinNames_of_disjoint h]

end Tag

namespace Store

/-- The tag that is registered under an identifier. -/
def tagAt (s : Store) (id : String) : Option Tag :=
  match s.catalog.find? id with
  | some (.tag t) => some (s.get t)
  | _ => none

variable {s s' : Store} {id : String}

theorem tagAt_of_find? {t : Ref Tag} (h : s.catalog.find? id = some (.tag t)) :
    s.tagAt id = some (s.get t) := by
  rw [tagAt, h]

theorem find?_of_tagAt {x : Tag} (h : s.tagAt id = some x) :
    ∃ t, s.catalog.find? id = some (.tag t) ∧ s.get t = x := by
  unfold tagAt at h
  split at h
  · rename_i t ht
    exact ⟨t, ht, Option.some.inj h⟩
  · cases h

theorem tagAt_of_none (h : s.catalog.find? id = none) : s.tagAt id = none := by
  rw [tagAt, h]

theorem tagAt_congr (hfind : s'.catalog.find? id = s.catalog.find? id)
    (hsame : ∀ t, s.catalog.find? id = some (.tag t) → s'.get t = s.get t) :
    s'.tagAt id = s.tagAt id := by
  unfold tagAt
  rw [hfind]
  split
  · rename_i t ht
    rw [hsame t ht]
  · rfl

theorem Labelled.tagAt_id (h : s.Labelled) {x : Tag} (hx : s.tagAt id = some x) : x.id = id := by
  obtain ⟨t, ht, rfl⟩ := find?_of_tagAt hx
  exact (h ht).idOf

/-! ## The base -/

/-- What the registry shares with the file is in order. -/
structure IsBase (b : Store) (file : String) (home : Ref Namespace) : Prop where
  name : PlainName file
  labelled : b.Labelled
  isTag : ∀ {id e}, b.catalog.find? id = some e → IsTag id → e.kind = .tag
  has : b.Has (.nameSpace home)

end Store

/-- The tag is that of the lone build joined to the one of the base. -/
structure Tag.Beside (b : Store) (file : String) (x y : Tag) : Prop where
  eq : x = y.joinedTo (b.tagAt y.id)
  isCanonical : y.IsCanonical
  owners : ∀ owner ∈ y.owners, Under file owner

/-- The namespace lists what it listed in the base, and the file if the lone build lists it. -/
structure Namespace.Beside (home : Namespace) (file : String) (x y : Namespace) : Prop where
  eq : x = { home with featureIds := joinNames home.featureIds y.featureIds }
  id_eq : y.id = home.id
  listed : y.featureIds = [] ∨ y.featureIds = [file]

/-- Under the identifier there is what the lone build has registered, or what the base has. -/
def Catalog.FoundBeside (b : Store) (ρ : Pairing) (s t : Store) (id : String) : Prop :=
  (∃ e e', s.catalog.find? id = some e ∧ t.catalog.find? id = some e' ∧ ρ e e') ∨
    t.catalog.find? id = none ∧ s.catalog.find? id = b.catalog.find? id

/-- What is registered beside the base is what the lone build has registered. -/
structure Catalog.Beside (b : Store) (file : String) (ρ : Pairing) (s t : Store) : Prop where
  parts : ∀ {id}, Under file id → FoundBeside b ρ s t id
  tags : ∀ {id}, IsTag id → FoundBeside b ρ s t id
  others : ∀ {id}, ¬ Under file id → ¬ IsTag id → s.catalog.find? id = b.catalog.find? id
  /-- No tag has two identifiers. -/
  once : ∀ {id id' a}, s.catalog.find? id = some (.tag a) → s.catalog.find? id' = some (.tag a) →
    id = id'
  has : ∀ {e}, b.Has e → s.Has e
  /-- What the lone build does not share is as in the base. -/
  kept : ∀ {e}, b.Has e → (∀ e', ¬ ρ e e') → s.content e = b.content e

/-- The terms on which a build beside others is the twin of the lone build. -/
def Terms.beside (b : Store) (file : String) (home : Ref Namespace) : Terms where
  file id := id = file
  part := Under file
  tag := Tag.Beside b file
  nameSpace _ := Namespace.Beside (b.get home) file
  links _ _ := False
  catalog := Catalog.Beside b file

/-! ## The terms are lawful -/

section

variable {b : Store} {file : String} {home : Ref Namespace} (hb : b.IsBase file home)
variable {ρ σ : Pairing} {s t : Store}

namespace Tag.Beside

variable {x y : Tag}

/-- A change that adds to the tag adds on top of the base. -/
theorem add (h : x.Beside b file y) {f : Tag → Tag} (hid : (f y).id = y.id)
    (hvalue : (f y).value = y.value) (hname : (f y).name = y.name)
    (hjoin : ∀ z : Tag, f (z.join y) = z.join (f y))
    (howners : ∀ owner ∈ (f y).owners, Under file owner) : (f x).Beside b file (f y) := by
  refine ⟨?_, ⟨?_, ?_⟩, howners⟩
  · rw [h.eq, hid, joinedTo, joinedTo]
    cases b.tagAt y.id with
    | none => rfl
    | some z => exact hjoin z
  · rw [hid, hvalue, h.isCanonical.id]
  · rw [hname, hvalue, h.isCanonical.name]

include hb

theorem id_eq (h : x.Beside b file y) : x.id = y.id := by
  obtain ⟨rfl, -, -⟩ := h
  unfold joinedTo
  cases hz : b.tagAt y.id with
  | none => rfl
  | some z =>
      have hid : z.id = y.id := hb.labelled.tagAt_id hz
      exact hid

end Tag.Beside

namespace Namespace.Beside

variable {n x y : Namespace}

theorem listFeature (h : Beside n file x y) :
    Beside n file { x with featureIds := joinName x.featureIds file }
      { y with featureIds := joinName y.featureIds file } := by
  refine ⟨?_, h.id_eq, Or.inr ?_⟩
  · rw [h.eq, joinName_joinNames]
  · rcases h.listed with hnil | hone
    · simp [joinName, hnil]
    · simp [joinName, hone]

end Namespace.Beside

theorem Catalog.FoundBeside.imp {id : String} (h : FoundBeside b ρ s t id) (hle : ρ ≤ σ) :
    FoundBeside b σ s t id :=
  h.imp_left fun ⟨e, e', hs, ht, he⟩ => ⟨e, e', hs, ht, hle _ _ he⟩

namespace Catalog.Beside

variable {α : Type} [Record α] [HeapRecord α]

theorem imp (h : Catalog.Beside b file ρ s t) (hle : ρ ≤ σ) : Catalog.Beside b file σ s t where
  parts hid := (h.parts hid).imp hle
  tags hid := (h.tags hid).imp hle
  others := h.others
  once := h.once
  has := h.has
  kept hhas hfree := h.kept hhas fun e' he => hfree e' (hle _ _ he)

theorem add (h : Catalog.Beside b file ρ s t) (x y : α) :
    Catalog.Beside b file ρ (s.add x).1 (t.add y).1 where
  parts hid := by
    rw [FoundBeside, catalog_add, catalog_add]
    exact h.parts hid
  tags hid := by
    rw [FoundBeside, catalog_add, catalog_add]
    exact h.tags hid
  others hid htag := by
    rw [catalog_add]
    exact h.others hid htag
  once := by
    rw [catalog_add]
    exact h.once
  has hhas := (has_add_iff s x _).mpr (.inl (h.has hhas))
  kept hhas hfree := by
    rw [content_add_of_has x (h.has hhas)]
    exact h.kept hhas hfree

theorem modify (h : Catalog.Beside b file ρ s t) {r r' : Ref α} (f g : α → α)
    (hr : ρ (Record.entry r) (Record.entry r')) :
    Catalog.Beside b file ρ (s.modify r f) (t.modify r' g) where
  parts hid := by
    rw [FoundBeside, catalog_modify, catalog_modify]
    exact h.parts hid
  tags hid := by
    rw [FoundBeside, catalog_modify, catalog_modify]
    exact h.tags hid
  others hid htag := by
    rw [catalog_modify]
    exact h.others hid htag
  once := by
    rw [catalog_modify]
    exact h.once
  has hhas := (has_modify s r f _).mpr (h.has hhas)
  kept hhas hfree := by
    rw [content_modify_of_ne s r f fun heq => hfree _ (heq ▸ hr)]
    exact h.kept hhas hfree

include hb

omit [HeapRecord α] in
/-- A part of the document comes in on both sides. -/
theorem enter (h : Catalog.Beside b file ρ s t) {r r' : Ref α}
    (hr : ρ (Record.entry r) (Record.entry r')) (hid : Record.id (s.get r) = Record.id (t.get r'))
    (hpart : Under file (Record.id (s.get r))) (hkind : ∀ a, Record.entry r ≠ .tag a) :
    Catalog.Beside b file ρ (s.enter r) (t.enter r') := by
  have htag : ∀ {id}, IsTag id → id ≠ Record.id (s.get r) := by
    rintro id hid rfl
    exact hb.name.no_tag_under hpart hid
  -- what is found differs under the identifier of the part alone
  have hfind : ∀ {id}, id ≠ Record.id (s.get r) →
      (s.enter r).catalog.find? id = s.catalog.find? id ∧
        (t.enter r').catalog.find? id = t.catalog.find? id := by
    intro id hne
    rw [catalog_enter, catalog_enter, Catalog.find?_insert_of_ne _ hne,
      Catalog.find?_insert_of_ne _ (hid ▸ hne)]
    exact ⟨rfl, rfl⟩
  have hold : ∀ {id a}, (s.enter r).catalog.find? id = some (.tag a) →
      s.catalog.find? id = some (.tag a) := by
    intro id a ha
    rw [catalog_enter, Catalog.find?_insert] at ha
    split at ha
    · exact absurd (Option.some.inj ha) (hkind a)
    · exact ha
  constructor
  case parts =>
    intro id hunder
    by_cases heq : id = Record.id (s.get r)
    · subst heq
      refine Or.inl ⟨_, _, ?_, ?_, hr⟩
      · rw [catalog_enter, Catalog.find?_insert_self]
      · rw [catalog_enter, ← hid, Catalog.find?_insert_self]
    · rw [FoundBeside, (hfind heq).1, (hfind heq).2]
      exact h.parts hunder
  case tags =>
    intro id hid'
    rw [FoundBeside, (hfind (htag hid')).1, (hfind (htag hid')).2]
    exact h.tags hid'
  case others =>
    intro id hnot hid'
    have hne : id ≠ Record.id (s.get r) := by
      rintro rfl
      exact hnot hpart
    rw [(hfind hne).1]
    exact h.others hnot hid'
  case once => exact fun ha ha' => h.once (hold ha) (hold ha')
  case has => exact fun hhas => (has_enter s r _).mpr (h.has hhas)
  case kept =>
    intro e hhas hfree
    rw [content_enter]
    exact h.kept hhas hfree

end Catalog.Beside

include hb

theorem Terms.beside_lawful : (Terms.beside b file home).Lawful where
  file_part := by
    rintro id rfl
    exact .refl _
  not_tag hid := hb.name.no_tag_under hid
  part hid hlabel := hid.trans (under_part _ hlabel)
  tag_id h := Tag.Beside.id_eq hb h
  addSite {x y} site h := Tag.Beside.add h (f := fun x => { x with sites := x.sites ++ [site] })
    rfl rfl rfl (fun z => by simp [Tag.join]) h.owners
  giveOwner {x y id} h hid := Tag.Beside.add h
    (f := fun x => { x with owners := joinName x.owners id })
    rfl rfl rfl (fun z => by simp [Tag.join, joinName_joinNames]) fun owner howner => by
      rcases mem_joinName.mp howner with hold | rfl
      · exact h.owners owner hold
      · exact hid
  addCount {x y} n h := Tag.Beside.add h
    (f := fun x => { x with totalScenarios := x.totalScenarios + n })
    rfl rfl rfl (fun z => by simp [Tag.join, Int.add_assoc]) h.owners
  nameSpace_id h := by
    rw [Namespace.Beside.eq h, Namespace.Beside.id_eq h]
  nameSpace_mono _ h := h
  listFeature := by
    rintro ρ x y id h rfl
    exact Namespace.Beside.listFeature h
  catalog_add x y h hle := Catalog.Beside.imp (Catalog.Beside.add h.catalog x y) hle
  catalog_enter := by
    intro α _ _ ρ s t r r' h hr hid hpart
    refine Catalog.Beside.enter hb h.catalog hr hid hpart fun a ha => ?_
    -- no tag has the identifier of a part
    have hcontent : (s.content (Record.entry r)).id = Record.id (s.get r) := by
      rw [content_entry, id_wrap]
    have halike := h.content hr
    rw [ha] at halike hcontent
    generalize t.content (Record.entry r') = c at halike
    have htag : (Content.tag (s.get a)).Alike (.beside b file home) ρ c := halike
    cases htag with
    | tag hx =>
        have hisTag : IsTag (s.get a).id := by
          rw [Tag.Beside.id_eq hb hx]
          exact Tag.IsCanonical.isTag (Tag.Beside.isCanonical hx)
        rw [← hcontent] at hpart
        exact hb.name.no_tag_under hpart hisTag
  catalog_modify f g h hr := Catalog.Beside.modify h.catalog f g hr

/-! ## Tags come in, or have been there -/

/-- What is registered has been given out. -/
theorem Twins.given (h : Twins (.beside b file home) ρ s t) {id : String} {e : Entry}
    (he : s.catalog.find? id = some e) : s.Has e := by
  have hcatalog : Catalog.Beside b file ρ s t := h.catalog
  have hbase : b.catalog.find? id = some e → s.Has e := fun hb' =>
    hcatalog.has (hb.labelled hb').has
  have hfound : Catalog.FoundBeside b ρ s t id → s.Has e := by
    rintro (⟨e₁, e', hs, -, hpair⟩ | ⟨-, hs⟩)
    · rw [he] at hs
      cases hs
      exact (h.has hpair).1
    · exact hbase (hs ▸ he)
  by_cases hunder : Under file id
  · exact hfound (hcatalog.parts hunder)
  by_cases htag : IsTag id
  · exact hfound (hcatalog.tags htag)
  · exact hbase (hcatalog.others hunder htag ▸ he)

omit hb in
/-- What is registered but not in the lone build has no partner there. -/
theorem Twins.unpaired (h : Twins (.beside b file home) ρ s t) {id : String} {a : Ref Tag}
    (hs : s.catalog.find? id = some (.tag a)) (ht : t.catalog.find? id = none) (e' : Entry) :
    ¬ ρ (.tag a) e' := by
  intro he
  have hkind := h.kind_eq he
  cases e' with
  | tag a' =>
      obtain ⟨id', -, hs', ht'⟩ := h.tags he
      obtain rfl := Catalog.Beside.once h.catalog hs hs'
      rw [ht] at ht'
      cases ht'
  | _ => cases hkind

/-- A tag of the base is met by one that comes in. -/
theorem Twins.meet_tag (h : Twins (.beside b file home) ρ s t) {token : String} {a : Ref Tag}
    (hs : s.catalog.find? (tagId token) = some (.tag a)) (ht : t.catalog.find? (tagId token) = none)
    (hbase : b.catalog.find? (tagId token) = some (.tag a)) :
    Twins (.beside b file home) (ρ.and (.tag a) (.tag (t.register (Tag.ofToken token)).2)) s
      (t.register (Tag.ofToken token)).1 := by
  set x := Tag.ofToken token
  set c := (t.register x).2
  have hlawful := Terms.beside_lawful hb
  have hfree : ∀ e', ¬ ρ (.tag a) e' := h.unpaired hs ht
  have hhas : b.Has (.tag a) := (hb.labelled hbase).has
  have hfind : ∀ id, (t.register x).1.catalog.find? id =
      if id = tagId token then some (.tag c) else t.catalog.find? id := by
    intro id
    rw [catalog_register, Catalog.find?_insert]
    rfl
  have hother : ∀ {id}, (t.catalog.find? id).isSome → id ≠ tagId token := by
    rintro id hsome rfl
    rw [ht] at hsome
    cases hsome
  have hagree : Agree (.beside b file home) (ρ.and (.tag a) (.tag c)) s (t.register x).1 := by
    constructor
    case biUnique =>
      exact Pairing.biUnique_and h.biUnique hfree fun _ he => not_has_register_self t x (h.has he).2
    case has =>
      rintro e e' (he | ⟨rfl, rfl⟩)
      · exact ⟨(h.has he).1, (has_register_iff t x _).mpr (.inl (h.has he).2)⟩
      · exact ⟨Catalog.Beside.has h.catalog hhas, has_register_self t x⟩
    case content =>
      rintro e e' (he | ⟨rfl, rfl⟩)
      · rw [content_register_of_has x (h.has he).2]
        exact (h.content he).mono hlawful (ρ.le_and _ _)
      · -- the tag is as it was in the base
        have hget : s.get a = b.get a :=
          get_eq_of_content_eq (Catalog.Beside.kept h.catalog (e := .tag a) hhas hfree)
        have hold : b.tagAt x.id = some (b.get a) := tagAt_of_find? hbase
        change (Content.tag (s.get a)).Alike _ _ (.tag ((t.register x).1.get c))
        rw [get_register_self, hget]
        refine .tag ⟨?_, Tag.isCanonical_ofToken token, nofun⟩
        rw [hold, Tag.joinedTo, Option.elim_some, Tag.join_ofToken]
    case catalog =>
      have hcatalog := Catalog.Beside.imp h.catalog (ρ.le_and (.tag a) (.tag c))
      -- only under the identifier of the tag is there another pair than before
      refine ⟨fun {id} hunder => ?_, fun {id} htag => ?_, hcatalog.others, hcatalog.once,
        hcatalog.has, hcatalog.kept⟩
      · have hne : id ≠ tagId token := by
          rintro rfl
          exact hb.name.no_tag_under hunder (isTag_tagId token)
        rw [Catalog.FoundBeside, hfind, if_neg hne]
        exact hcatalog.parts hunder
      · rw [Catalog.FoundBeside, hfind]
        split
        · rename_i heq
          subst heq
          exact Or.inl ⟨_, _, hs, rfl, ρ.and_self _ _⟩
        · exact hcatalog.tags htag
  refine ⟨hagree, ?_⟩
  rintro a₁ b₁ (hab | ⟨ha, hb⟩)
  · obtain ⟨id, htag, ha, hb⟩ := h.tags hab
    refine ⟨id, htag, ha, ?_⟩
    rw [hfind, if_neg (hother (by rw [hb]; rfl)), hb]
  · rw [ha, hb]
    exact ⟨tagId token, isTag_tagId token, hs, by rw [hfind, if_pos rfl]⟩

/-- A tag that the base does not have comes in on both sides. -/
theorem Twins.bring_tag (h : Twins (.beside b file home) ρ s t) {token : String}
    (hs : s.catalog.find? (tagId token) = none)
    (hbase : b.catalog.find? (tagId token) = none) :
    Twins (.beside b file home) (ρ.and (.tag (s.register (Tag.ofToken token)).2)
      (.tag (t.register (Tag.ofToken token)).2)) (s.register (Tag.ofToken token)).1
        (t.register (Tag.ofToken token)).1 := by
  set x := Tag.ofToken token
  have hx : x.Beside b file x := by
    refine ⟨?_, Tag.isCanonical_ofToken token, nofun⟩
    rw [show b.tagAt x.id = none from tagAt_of_none hbase]
    rfl
  refine h.register_tag (Terms.beside_lawful hb) (isTag_tagId token) hs hx ?_
  have hfind : ∀ (s : Store) (id : String), (s.register x).1.catalog.find? id =
      if id = tagId token then some (.tag (s.register x).2) else s.catalog.find? id := by
    intro s id
    rw [catalog_register, Catalog.find?_insert]
    rfl
  have hcatalog := Catalog.Beside.imp h.catalog
    (ρ.le_and (.tag (s.register x).2) (.tag (t.register x).2))
  -- a tag that comes in has had no identifier
  have hnew : ∀ {id}, s.catalog.find? id ≠ some (.tag (s.register x).2) := fun hid =>
    not_has_register_self s x (h.given hb hid)
  constructor
  case parts =>
    intro id hunder
    have hne : id ≠ tagId token := by
      rintro rfl
      exact hb.name.no_tag_under hunder (isTag_tagId token)
    rw [Catalog.FoundBeside, hfind, hfind, if_neg hne, if_neg hne]
    exact hcatalog.parts hunder
  case tags =>
    intro id htag
    rw [Catalog.FoundBeside, hfind, hfind]
    split
    · exact Or.inl ⟨_, _, rfl, rfl, ρ.and_self _ _⟩
    · exact hcatalog.tags htag
  case others =>
    intro id hnot htag
    have hne : id ≠ tagId token := by
      rintro rfl
      exact htag (isTag_tagId token)
    rw [hfind, if_neg hne]
    exact hcatalog.others hnot htag
  case once =>
    intro id id' a ha ha'
    rw [hfind] at ha ha'
    split at ha <;> split at ha'
    · simp_all
    · cases ha
      exact absurd ha' hnew
    · cases ha'
      exact absurd ha hnew
    · exact hcatalog.once ha ha'
  case has =>
    intro e hhas
    exact (has_register_iff s x _).mpr (.inl (hcatalog.has hhas))
  case kept =>
    intro e hhas hfree
    rw [content_register_of_has x (hcatalog.has hhas)]
    exact hcatalog.kept hhas hfree

namespace Build

open Follows

/-- A tag that the base has is found where it comes in beside it. -/
theorem tagOf_beside (ρ : Pairing) (token : Value) :
    Follows (.beside b file home) ρ SameEntry (tagOf token) (tagOf token) := by
  intro s t htwins
  have htag := isTag_tagId token.display
  have hcatalog : Catalog.Beside b file ρ s t := htwins.catalog
  rw [run_tagOf, run_tagOf]
  rcases hcatalog.tags htag with ⟨e, e', hs, ht, he⟩ | ⟨ht, hs⟩
  · rw [hs, ht]
    exact (Follows.pure he : Follows (.beside b file home) ρ SameEntry _ _) s t htwins
  · rw [ht]
    cases token with
    | text name =>
        refine ⟨?_, nofun⟩
        rintro _ _ ⟨⟩
        rw [Value.display_text] at hs ht htag ⊢
        cases hbase : b.catalog.find? (tagId name) with
        | some e =>
            -- the tag is that of the base
            rw [hbase] at hs
            have hkind := hb.isTag hbase htag
            cases e with
            | tag a =>
                rw [hs]
                exact ⟨_, _, _, rfl, ρ.le_and _ _, htwins.meet_tag hb hs ht hbase, ρ.and_self _ _⟩
            | _ => cases hkind
        | none =>
            rw [hbase] at hs
            rw [hs]
            exact ⟨_, _, _, rfl, ρ.le_and _ _, htwins.bring_tag hb hs hbase, ρ.and_self _ _⟩
    | _ => exact ⟨nofun, by rintro _ _ ⟨⟩ ⟨⟩⟩

end Build

theorem Terms.beside_complete : (Terms.beside b file home).Complete :=
  { Terms.beside_lawful hb with tagOf := Build.tagOf_beside hb }

/-! ## Whole documents -/

/-- At the start of the document the two registries share the namespace of the file alone. -/
theorem Twins.beside_start {t : Store} {n : Ref Namespace}
    (hspaces : ∀ {id e}, t.catalog.find? id = some e → IsDirectory id)
    (hn : t.Has (.nameSpace n)) (hid : (t.get n).id = (b.get home).id)
    (hlisted : (t.get n).featureIds = []) :
    Twins (.beside b file home) (fun e e' => e = .nameSpace home ∧ e' = .nameSpace n) b t := by
  have hfile := hb.name.featureFile
  have hnone : ∀ {id}, ¬ IsDirectory id → t.catalog.find? id = none := by
    intro id hnot
    rw [Option.eq_none_iff_forall_ne_some]
    exact fun e he => hnot (hspaces he)
  have hagree : Agree (.beside b file home) (fun e e' => e = .nameSpace home ∧ e' = .nameSpace n)
      b t := by
    constructor
    case biUnique =>
      constructor
      · rintro e₁ e' e₂ ⟨rfl, -⟩ ⟨rfl, -⟩
        rfl
      · rintro e e₁ e₂ ⟨-, rfl⟩ ⟨-, rfl⟩
        rfl
    case has =>
      rintro e e' ⟨rfl, rfl⟩
      exact ⟨hb.has, hn⟩
    case content =>
      rintro e e' ⟨rfl, rfl⟩
      refine .nameSpace ⟨?_, hid, Or.inl hlisted⟩
      rw [hlisted, joinNames, List.filter_nil, List.append_nil]
      cases b.get home
      rfl
    case catalog =>
      constructor
      case parts => exact fun hunder => Or.inr ⟨hnone (hfile.not_isDirectory hunder), rfl⟩
      case tags =>
        exact fun htag => Or.inr ⟨hnone fun hdirectory => hdirectory.not_isTag htag, rfl⟩
      case others => exact fun _ _ => rfl
      case once =>
        intro id id' a ha ha'
        exact (hb.labelled ha).idOf.symm.trans (hb.labelled ha').idOf
      case has => exact id
      case kept => exact fun _ _ => rfl
  refine ⟨hagree, ?_⟩
  rintro a b' ⟨ha, -⟩
  cases ha

/-- **The build of a document on a registry follows the lone one.** -/
theorem Build.document_beside {t : Store} {n : Ref Namespace}
    (hspaces : ∀ {id e}, t.catalog.find? id = some e → IsDirectory id)
    (hn : t.Has (.nameSpace n)) (hid : (t.get n).id = (b.get home).id)
    (hlisted : (t.get n).featureIds = []) (content : Value) (excluded : List String) :
    (∀ r' t', (document ⟨file, excluded, .nameSpace n⟩ content).run t = (.ok r', t') →
      ∃ r s' σ, (document ⟨file, excluded, .nameSpace home⟩ content).run b = (.ok r, s') ∧
        Twins (.beside b file home) σ s' t' ∧ Option.Rel (SameRef σ) r r' ∧
        σ (.nameSpace home) (.nameSpace n)) ∧
    ∀ fault t', (document ⟨file, excluded, .nameSpace n⟩ content).run t = (.error fault, t') →
      Batch.isLocal fault →
      ∃ s', (document ⟨file, excluded, .nameSpace home⟩ content).run b = (.error fault, s') := by
  have hstart := Twins.beside_start hb hspaces hn hid hlisted
  have hfile : (Terms.beside b file home).file file := rfl
  obtain ⟨hok, herror⟩ := (document_follows (Terms.beside_complete hb) hfile ⟨rfl, rfl⟩ content :
    Follows _ _ _ (document ⟨file, excluded, .nameSpace home⟩ content)
      (document ⟨file, excluded, .nameSpace n⟩ content)) b t hstart
  refine ⟨fun r' t' hrun => ?_, herror⟩
  obtain ⟨r, s', σ, hrun', hle, htwins, hr⟩ := hok r' t' hrun
  exact ⟨r, s', σ, hrun', htwins, hr, hle _ _ ⟨rfl, rfl⟩⟩

end

end StepTrace
