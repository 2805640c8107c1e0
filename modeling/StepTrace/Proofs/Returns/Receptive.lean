import StepTrace.Proofs.Build.Changes
import StepTrace.Proofs.Build.Namespaces
import StepTrace.Proofs.Returns.Documents

/-!
# Registries that refuse no document

A build can be refused for what the registry holds: what stands where a tag or the root namespace
should stand may be something else, and the steps of an outline may be such that nothing can be
filled in.  `Store.Receptive` says that this is not so, of all that has come in since some store, and
every change that builds consist of keeps it.

Identifiers are what it depends on: a part of a document must never be mistaken for a tag.  This is
so if the file of the document has not the name of one (`Untagged.part`).
-/

namespace StepTrace

open Store HeapRecord

/-! ## Identifiers that are none of tags -/

/-- With a label behind it, it is no identifier of a tag. -/
def Untagged (id : String) : Prop :=
  ¬ IsTag (id ++ ":")

theorem untagged_empty : Untagged "" := by
  unfold Untagged IsTag
  decide

/-- What begins like a tag does so before its first colon or slash has passed. -/
private theorem tagPrefix_of_append {head rest : List Char} {c : Char}
    (h : tagPrefix <+: (head ++ [c]) ++ rest) (hc : c = ':' ∨ c = '/') :
    tagPrefix <+: head ++ [c] := by
  rcases List.prefix_or_prefix_of_prefix h (List.prefix_append _ rest) with hbegins | hinside
  · exact hbegins
  · obtain ⟨more, hmore⟩ := hinside
    have hlast : more = [] := by
      have hprefix : head ++ c :: more = ['t', 'a', 'g', ':'] := by simpa [tagPrefix] using hmore
      rcases head with _ | ⟨a, _ | ⟨b, _ | ⟨d, _ | ⟨e, head⟩⟩⟩⟩
      all_goals
        rcases hc with rfl | rfl
        all_goals simp_all
    rw [hlast, List.append_nil] at hmore
    exact hmore ▸ List.prefix_refl _

namespace Untagged

variable {id : String}

theorem not_isTag (h : Untagged id) : ¬ IsTag id := by
  intro htag
  refine h ?_
  rw [IsTag, String.toList_append]
  exact htag.trans (List.prefix_append _ _)

theorem part (h : Untagged id) (label : String) : Untagged (part id label) := by
  intro htag
  refine h ?_
  rw [IsTag, StepTrace.part, String.toList_append, String.toList_append, String.toList_append,
    List.append_assoc] at htag
  rw [IsTag, String.toList_append]
  exact tagPrefix_of_append htag (Or.inl rfl)

/-- Neither is that of a namespace inside one. -/
theorem child (h : Untagged id) (name : String) : Untagged (id ++ "/" ++ name) := by
  intro htag
  rw [IsTag, String.toList_append, String.toList_append, String.toList_append,
    List.append_assoc] at htag
  rcases List.prefix_concat_iff.mp (tagPrefix_of_append htag (Or.inr rfl)) with heq | hbegins
  · have hslash : '/' ∈ tagPrefix := heq ▸ List.mem_append_right _ (List.mem_singleton_self _)
    exact absurd hslash (by decide)
  · exact h.not_isTag hbegins

end Untagged

/-- The name of a feature file is none of a tag if it does not look like one. -/
theorem FeatureEnding.untagged {file : String} (hfile : FeatureEnding file) (htag : ¬ IsTag file) :
    Untagged file := by
  intro h
  rw [IsTag, String.toList_append] at h
  rcases List.prefix_concat_iff.mp h with heq | hbegins
  · obtain ⟨stem, hstem⟩ := hfile
    have hlength := congrArg List.length heq
    rw [hstem] at hlength
    simp [tagPrefix] at hlength
  · exact htag hbegins

theorem part_ne_root (id label : String) : part id label ≠ rootNamespaceId := by
  intro h
  have hmem : ':' ∈ (part id label).toList := by simp [part]
  rw [h] at hmem
  exact absurd hmem (by decide)

/-! ## Receptive stores -/

theorem Arena.modify_of_not_holds {α : Type} {a : Arena α} {r : Ref α} (h : ¬ a.Holds r)
    (f : α → α) : a.modify r f = a := by
  obtain ⟨records⟩ := a
  simp only [Holds] at h
  simp only [modify, mk.injEq]
  refine Array.ext (by simp) fun i hi hi' => ?_
  rw [Array.getElem_modify, if_neg (by omega)]

namespace Content

/-- The namespaces in a namespace, by their names. -/
def children : Content → OrderedMap String (Ref Namespace)
  | nameSpace n => n.children
  | _ => .empty

/-- The steps that rows are made from. -/
def templates : Content → List (Ref Step)
  | outline o => o.steps
  | _ => []

end Content

namespace Store

/-- What has come in since `old` is such that no document is refused for it; `named` are features
with their files. -/
structure Receptive (s old : Store) (named : List (Ref Feature × String)) : Prop where
  has : ∀ {e}, old.Has e → s.Has e
  untagged : ∀ {e}, s.Has e → ¬ old.Has e → e.kind ≠ .tag → Untagged (s.idOf e)
  children : ∀ {e name n}, s.Has e → ¬ old.Has e →
    (s.content e).children.find? name = some n → ¬ old.Has (.nameSpace n)
  templates : ∀ {e}, s.Has e → ¬ old.Has e → ∀ x ∈ (s.content e).templates,
    s.Has (.step x) ∧ (s.get x).Written
  tag : ∀ {id e}, s.catalog.find? id = some e → IsTag id → e.kind = .tag
  root : ∀ {e}, s.catalog.find? rootNamespaceId = some e → e.kind = .nameSpace ∧ ¬ old.Has e
  named : ∀ p ∈ named, s.Has (.feature p.1) ∧ (s.get p.1).id = p.2

theorem get_of_not_has {α : Type} [Record α] [HeapRecord α] {s : Store} {r : Ref α}
    (h : ¬ s.Has (Record.entry r)) : s.get r = default := by
  rw [has_entry, Arena.Holds] at h
  rw [get, Arena.get, Array.getElem?_eq_none (Nat.not_lt.mp h)]
  rfl

theorem idOf_of_not_has {s : Store} {e : Entry} (h : ¬ s.Has e) : s.idOf e = "" := by
  cases e with
  | nameSpace r => exact congrArg Namespace.id (get_of_not_has h)
  | feature r => exact congrArg Feature.id (get_of_not_has h)
  | scenario r => exact congrArg Scenario.id (get_of_not_has h)
  | outline r => exact congrArg Outline.id (get_of_not_has h)
  | examples r => exact congrArg Examples.id (get_of_not_has h)
  | step r => exact congrArg Step.id (get_of_not_has h)
  | tag r => exact congrArg Tag.id (get_of_not_has h)
  | definition r => exact congrArg Definition.id (get_of_not_has h)
  | transform r => exact congrArg Transform.id (get_of_not_has h)

theorem modify_of_not_has {α : Type} [Record α] [HeapRecord α] {s : Store} {r : Ref α}
    (h : ¬ s.Has (Record.entry r)) (f : α → α) : s.modify r f = s := by
  rw [has_entry] at h
  rw [modify, Arena.modify_of_not_holds h]
  exact setArena_arena s

theorem content_addSteps {s : Store} (xs : List Step) {e : Entry} (he : s.Has e) :
    (s.addSteps xs).1.content e = s.content e := by
  induction xs generalizing s with
  | nil => rfl
  | cons x xs ih =>
      exact (ih ((has_add_iff s x e).mpr (Or.inl he))).trans (content_add_of_has x he)

namespace Receptive

variable {old s s' : Store} {named : List (Ref Feature × String)}

/-- After a store is cleared nothing is in the way. -/
theorem clear (s : Store) : s.clear.Receptive s [] where
  has := id
  untagged h hnew := absurd h hnew
  children h hnew := absurd h hnew
  templates h hnew := absurd h hnew
  tag := nofun
  root := nofun
  named := nofun

theorem untagged_idOf (h : s.Receptive old named) {e : Entry} (hnew : ¬ old.Has e)
    (hkind : e.kind ≠ .tag) : Untagged (s.idOf e) := by
  by_cases he : s.Has e
  · exact h.untagged he hnew hkind
  · rw [idOf_of_not_has he]
    exact untagged_empty

/-- Records that keep their identifiers may change, if namespaces only get children that are new and
outlines only steps that are written. -/
theorem update (h : s.Receptive old named) (hcatalog : s'.catalog = s.catalog)
    (hhas : ∀ e, s'.Has e ↔ s.Has e) (hid : ∀ e, s'.idOf e = s.idOf e)
    (hchildren : ∀ {e name n}, (s'.content e).children.find? name = some n →
      (s.content e).children.find? name = some n ∨ ¬ old.Has (.nameSpace n))
    (htemplates : ∀ {e x}, x ∈ (s'.content e).templates →
      x ∈ (s.content e).templates ∨ s.Has (.step x) ∧ (s.get x).Written)
    (hstep : ∀ x : Ref Step, s'.get x = s.get x) : s'.Receptive old named where
  has he := (hhas _).mpr (h.has he)
  untagged he hnew hkind := hid _ ▸ h.untagged ((hhas _).mp he) hnew hkind
  children he hnew hn := (hchildren hn).elim (h.children ((hhas _).mp he) hnew) id
  templates he hnew x hx := by
    rw [hhas, hstep]
    exact (htemplates hx).elim (h.templates ((hhas _).mp he) hnew x) id
  tag := hcatalog ▸ h.tag
  root := hcatalog ▸ h.root
  named p hp := by
    obtain ⟨hhas', hid'⟩ := h.named p hp
    exact ⟨(hhas _).mpr hhas', (hid (.feature p.1)).trans hid'⟩

variable {α : Type} [Record α] [HeapRecord α]

theorem modify (h : s.Receptive old named) (r : Ref α) {f : α → α}
    (hid : ∀ x, Record.id (f x) = Record.id x)
    (hchildren : ∀ {name n}, (wrap (f (s.get r))).children.find? name = some n →
      (wrap (s.get r)).children.find? name = some n ∨ ¬ old.Has (.nameSpace n))
    (htemplates : ∀ {x}, x ∈ (wrap (f (s.get r))).templates →
      x ∈ (wrap (s.get r)).templates ∨ s.Has (.step x) ∧ (s.get x).Written)
    (hstep : ∀ x : α, (wrap (f x)).step? = (wrap x).step?) :
    (s.modify r f).Receptive old named := by
  by_cases hr : s.Has (Record.entry r)
  · have hself := content_modify_self s r f hr
    have hsame : s.content (Record.entry r) = wrap (s.get r) := content_entry s r
    refine h.update (catalog_modify s r f) (has_modify s r f) (fun e => ?_) ?_ ?_ fun x => ?_
    · by_cases he : e = Record.entry r
      · rw [idOf_eq, idOf_eq, he, hself, hsame, id_wrap, id_wrap, hid]
      · rw [idOf_eq, idOf_eq, content_modify_of_ne s r f he]
    · intro e name n hn
      by_cases he : e = Record.entry r
      · rw [he, hself] at hn
        rw [he, hsame]
        exact hchildren hn
      · rw [content_modify_of_ne s r f he] at hn
        exact Or.inl hn
    · intro e x hx
      by_cases he : e = Record.entry r
      · rw [he, hself] at hx
        rw [he, hsame]
        exact htemplates hx
      · rw [content_modify_of_ne s r f he] at hx
        exact Or.inl hx
    · by_cases hx : Entry.step x = Record.entry r
      · have hnew := hstep (s.get r)
        rw [← hself, ← hsame, ← hx] at hnew
        exact Option.some.inj hnew
      · exact get_eq_of_content_eq (content_modify_of_ne s r f hx)
  · rwa [modify_of_not_has hr]

/-- Most changes touch nothing of this. -/
theorem modify_same (h : s.Receptive old named) (r : Ref α) {f : α → α}
    (hid : ∀ x, Record.id (f x) = Record.id x)
    (hchildren : ∀ x, (wrap (f x)).children = (wrap x).children)
    (htemplates : ∀ x, (wrap (f x)).templates = (wrap x).templates)
    (hstep : ∀ x : α, (wrap (f x)).step? = (wrap x).step?) :
    (s.modify r f).Receptive old named := by
  refine h.modify r hid (fun hn => Or.inl ?_) (fun hx => Or.inl ?_) hstep
  · rwa [hchildren] at hn
  · rwa [htemplates] at hx

theorem add (h : s.Receptive old named) {x : α}
    (huntagged : (Record.entry (s.add x).2).kind ≠ .tag → Untagged (Record.id x))
    (hchildren : (wrap x).children = .empty) (htemplates : (wrap x).templates = []) :
    (s.add x).1.Receptive old named := by
  have hold : ∀ {e}, (s.add x).1.Has e → s.Has e ∨ e = Record.entry (s.add x).2 :=
    (has_add_iff s x _).mp
  have hself := content_add_self s x
  constructor
  · exact fun he => (has_add_iff s x _).mpr (Or.inl (h.has he))
  · intro e he hnew hkind
    rw [idOf_eq]
    rcases hold he with hthere | rfl
    · rw [content_add_of_has x hthere, ← idOf_eq]
      exact h.untagged hthere hnew hkind
    · rw [hself, id_wrap]
      exact huntagged hkind
  · intro e name n he hnew hn
    rcases hold he with hthere | rfl
    · rw [content_add_of_has x hthere] at hn
      exact h.children hthere hnew hn
    · rw [hself, hchildren] at hn
      cases hn
  · intro e he hnew y hy
    rcases hold he with hthere | rfl
    · rw [content_add_of_has x hthere] at hy
      obtain ⟨hstep, hwritten⟩ := h.templates hthere hnew y hy
      refine ⟨(has_add_iff s x _).mpr (Or.inl hstep), ?_⟩
      rwa [get_eq_of_content_eq (content_add_of_has x hstep)]
    · rw [hself, htemplates] at hy
      cases hy
  · intro id e he
    rw [catalog_add] at he
    exact h.tag he
  · intro e he
    rw [catalog_add] at he
    exact h.root he
  · intro p hp
    obtain ⟨hhas, hid⟩ := h.named p hp
    refine ⟨(has_add_iff s x _).mpr (Or.inl hhas), ?_⟩
    rwa [get_eq_of_content_eq (content_add_of_has x hhas)]

omit [HeapRecord α] in
theorem enter (h : s.Receptive old named) {r : Ref α}
    (htag : IsTag (Record.id (s.get r)) → (Record.entry r).kind = .tag)
    (hroot : Record.id (s.get r) = rootNamespaceId →
      (Record.entry r).kind = .nameSpace ∧ ¬ old.Has (Record.entry r)) :
    (s.enter r).Receptive old named where
  has he := (has_enter s r _).mpr (h.has he)
  untagged he := by
    rw [idOf_eq, content_enter, ← idOf_eq]
    exact h.untagged ((has_enter s r _).mp he)
  children he := by
    rw [content_enter]
    exact h.children ((has_enter s r _).mp he)
  templates he := by
    rw [content_enter]
    exact h.templates ((has_enter s r _).mp he)
  tag {id e} he hid := by
    rw [catalog_enter, Catalog.find?_insert] at he
    split at he
    · rename_i heq
      cases he
      exact htag (heq ▸ hid)
    · exact h.tag he hid
  root {e} he := by
    rw [catalog_enter, Catalog.find?_insert] at he
    split at he
    · rename_i heq
      cases he
      exact hroot heq.symm
    · exact h.root he
  named p hp := h.named p hp

omit [HeapRecord α] in
/-- The places that are given out are new. -/
theorem not_has_of_not_has (h : s.Receptive old named) {e : Entry} (he : ¬ s.Has e) : ¬ old.Has e :=
  fun hold => he (h.has hold)

theorem register (h : s.Receptive old named) {x : α} (huntagged : Untagged (Record.id x))
    (hroot : Record.id x = rootNamespaceId → (Record.entry (s.register x).2).kind = .nameSpace)
    (hchildren : (wrap x).children = .empty) (htemplates : (wrap x).templates = []) :
    (s.register x).1.Receptive old named := by
  rw [register_eq]
  refine (h.add (fun _ => huntagged) hchildren htemplates).enter (fun htag => ?_) fun heq => ?_
  · rw [get_add_self] at htag
    exact absurd htag huntagged.not_isTag
  · rw [get_add_self] at heq
    exact ⟨hroot heq, h.not_has_of_not_has (not_has_add_self s x)⟩

/-- A part of a document is registered under a label behind the identifier of its owner. -/
theorem register_part (h : s.Receptive old named) {x : α} {id label : String}
    (hid : Record.id x = part id label) (huntagged : Untagged id)
    (hchildren : (wrap x).children = .empty) (htemplates : (wrap x).templates = []) :
    (s.register x).1.Receptive old named :=
  h.register (hid ▸ huntagged.part label) (fun heq => absurd (hid ▸ heq) (part_ne_root id label))
    hchildren htemplates

theorem register_tag (h : s.Receptive old named) (token : String) :
    (s.register (Tag.ofToken token)).1.Receptive old named := by
  rw [register_eq]
  refine (h.add (fun hkind => absurd rfl hkind) rfl rfl).enter (fun _ => rfl) fun heq => ?_
  rw [get_add_self] at heq
  exact absurd (isTag_tagId token) (IsDirectory.not_isTag (Or.inl heq))

/-- A feature that has come in is known by its file. -/
theorem name (h : s.Receptive old named) {r : Ref Feature} (hr : s.Has (.feature r)) :
    s.Receptive old ((r, (s.get r).id) :: named) :=
  { h with named := List.forall_mem_cons.mpr ⟨⟨hr, rfl⟩, h.named⟩ }

/-- Of the features that are known some may be forgotten. -/
theorem forget (h : s.Receptive old named) {fewer : List (Ref Feature × String)}
    (hfewer : ∀ p ∈ fewer, p ∈ named) : s.Receptive old fewer :=
  { h with named := fun p hp => h.named p (hfewer p hp) }

/-- A step of a container is registered behind the others. -/
theorem pushStep (h : s.Receptive old named) (c : Container) {x : Step} {id label : String}
    (hid : x.id = part id label) (huntagged : Untagged id) (hwritten : x.Written) :
    (Build.pushStep (s.register x).1 c (s.register x).2).Receptive old named := by
  have hregister : (s.register x).1.Receptive old named :=
    h.register_part hid huntagged rfl rfl
  have hget := get_register_self s x
  cases c with
  | scenario r =>
      exact hregister.modify_same r (fun _ => rfl) (fun _ => rfl) (fun _ => rfl) fun _ => rfl
  | outline r =>
      refine hregister.modify r (fun _ => rfl) (fun hn => Or.inl hn) (fun {y} hy => ?_) fun _ => rfl
      change y ∈ ((s.register x).1.get r).steps ++ [(s.register x).2] at hy
      rcases List.mem_append.mp hy with hy | hy
      · exact Or.inl hy
      · rw [List.mem_singleton.mp hy, hget]
        exact Or.inr ⟨has_register_self s x, hwritten⟩

/-- Steps that are not registered yet have come in. -/
theorem addSteps (h : s.Receptive old named) {id : String} (huntagged : Untagged id) {xs : List Step}
    (hxs : ∀ x ∈ xs, ∃ label, x.id = part id label) :
    (s.addSteps xs).1.Receptive old named ∧
      ∀ r ∈ (s.addSteps xs).2, ∃ label, ((s.addSteps xs).1.get r).id = part id label := by
  induction xs generalizing s with
  | nil => exact ⟨h, nofun⟩
  | cons x xs ih =>
      obtain ⟨⟨label, hid⟩, hrest⟩ := List.forall_mem_cons.mp hxs
      have hadd : (s.add x).1.Receptive old named := by
        refine h.add (fun _ => ?_) rfl rfl
        change Untagged x.id
        exact hid ▸ huntagged.part label
      obtain ⟨hall, hids⟩ := ih hadd hrest
      refine ⟨hall, List.forall_mem_cons.mpr ⟨⟨label, ?_⟩, hids⟩⟩
      have hget : ((s.add x).1.addSteps xs).1.get (s.add x).2 = x :=
        (get_eq_of_content_eq (content_addSteps xs (has_add_self s x))).trans (get_add_self s x)
      exact (congrArg Step.id hget).trans hid

/-- Steps are registered. -/
theorem enterAll (h : s.Receptive old named) {id : String} (huntagged : Untagged id)
    {refs : List (Ref Step)} (hrefs : ∀ r ∈ refs, ∃ label, (s.get r).id = part id label) :
    (refs.foldl Store.enter s).Receptive old named := by
  induction refs generalizing s with
  | nil => exact h
  | cons r refs ih =>
      obtain ⟨⟨label, hid⟩, hrest⟩ := List.forall_mem_cons.mp hrefs
      refine ih (h.enter (fun htag => ?_) fun hroot => ?_) hrest
      · exact absurd (hid ▸ htag) (huntagged.part label).not_isTag
      · exact absurd (hid ▸ hroot) (part_ne_root id label)

/-- A row comes in with its steps. -/
theorem addRow (h : s.Receptive old named) {o : Ref Outline} (ho : ¬ old.Has (.outline o))
    {headers cells : List Value} {x : Scenario} {xs : List Step}
    (hrow : (s.get o).explodeRow ((s.get o).steps.map fun r => s.get r) headers cells =
      .ok (x, xs)) : (s.addRow o x xs).Receptive old named := by
  obtain ⟨hid, -, -, hsteps⟩ := Outline.explodeRow_ok hrow
  have huntagged : Untagged (s.get o).id := h.untagged_idOf (e := .outline o) ho nofun
  have hxs : ∀ y ∈ xs, ∃ label, y.id = part x.id label := by
    intro y hy
    obtain ⟨i, hi, -⟩ := hsteps.exists_of_mem hy
    exact ⟨_, hi⟩
  have hx : Untagged x.id := hid ▸ huntagged.part _
  obtain ⟨hadd, hids⟩ := h.addSteps hx hxs
  let y : Scenario := { x with steps := (s.addSteps xs).2 }
  have hregister : ((s.addSteps xs).1.register y).1.Receptive old named :=
    hadd.register_part (x := y) hid huntagged rfl rfl
  refine (hregister.enterAll hx fun r hr => ?_).modify_same o (fun _ => rfl) (fun _ => rfl)
    (fun _ => rfl) fun _ => rfl
  have hhas : (s.addSteps xs).1.Has (.step r) := ((Build.addSteps_new s xs).2 r hr).2
  rw [get_eq_of_content_eq (content_register_of_has y hhas)]
  exact hids r hr

theorem attach (h : s.Receptive old named) (tag : Ref Tag) (e : Entry) (tags : List (Ref Tag)) :
    (s.attach tag e tags).Receptive old named := by
  have hgive : (s.giveTag tag e tags).Receptive old named := by
    unfold giveTag
    split
    · exact h
    · cases e with
      | feature r | scenario r | outline r | examples r =>
          exact h.modify_same r (fun _ => rfl) (fun _ => rfl) (fun _ => rfl) fun _ => rfl
      | nameSpace | step | tag | definition | transform => exact h
  unfold Store.attach giveOwner
  split
  · exact hgive
  · exact hgive.modify_same tag (fun _ => rfl) (fun _ => rfl) (fun _ => rfl) fun _ => rfl

end Receptive

end Store

end StepTrace
