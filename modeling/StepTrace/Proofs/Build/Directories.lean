import Mathlib.Data.List.Induction
import StepTrace.Proofs.Build.Namespaces
import StepTrace.Proofs.Path

/-!
# What finding the namespace of a file leaves

Exactly the directories on the path of the file are registered that were not, each as a fresh
namespace; of those that were registered only the innermost may get a description, and nothing else
changes but the children of namespaces (`namespaceOf_run`).

Children are left out of account here (`Store.spaceAt`): which they are follows from what is
registered, since the namespaces form a tree.
-/

namespace StepTrace

/-! ## Directories and their identifiers -/

theorem directoryId_concat (names : List String) (name : String) :
    directoryId (names ++ [name]) = directoryId names ++ "/" ++ name := by
  rw [directoryId, List.foldl_append]
  rfl

/-- The names can be part of a path. -/
def Slashless (names : List String) : Prop :=
  ∀ name ∈ names, '/' ∉ name.toList

/-- The directories of a proper path can. -/
theorem Path.Proper.slashless {p : Path} (h : p.Proper) : Slashless p.parent.names :=
  fun name hname => h.names name (p.names.dropLast_sublist.subset hname)

theorem Slashless.of_prefix {names names' : List String} (h : Slashless names')
    (hbegins : names <+: names') : Slashless names :=
  fun name hname => h name (hbegins.subset hname)

theorem slashless_concat {names : List String} {name : String} :
    Slashless (names ++ [name]) ↔ Slashless names ∧ '/' ∉ name.toList := by
  simp [Slashless, or_imp, forall_and]

/-- **Different directories have different identifiers.** -/
theorem directoryId_injective {names names' : List String} (h : Slashless names)
    (h' : Slashless names') (heq : directoryId names = directoryId names') : names = names' := by
  induction names using List.reverseRecOn generalizing names' with
  | nil =>
      cases names' using List.reverseRecOn with
      | nil => rfl
      | append_singleton names' name' =>
          rw [directoryId_concat] at heq
          exact absurd heq.symm (child_ne_root _ _)
  | append_singleton names name ih =>
      cases names' using List.reverseRecOn with
      | nil =>
          rw [directoryId_concat] at heq
          exact absurd heq (child_ne_root _ _)
      | append_singleton names' name' =>
          rw [directoryId_concat, directoryId_concat] at heq
          rw [slashless_concat] at h h'
          obtain ⟨hnames, rfl⟩ := child_injective h.2 h'.2 heq
          rw [ih h.1 h'.1 hnames]

/-- The namespace of a directory as it comes in. -/
def Namespace.fresh (names : List String) : Namespace where
  id := directoryId names
  name := names.getLast?.getD rootNamespaceId
  parentId := if names = [] then none else some (directoryId names.dropLast)

theorem Namespace.fresh_concat (names : List String) (name : String) :
    fresh (names ++ [name]) =
      { id := directoryId names ++ "/" ++ name, name, parentId := some (directoryId names) } := by
  simp [fresh, directoryId_concat]

/-- The namespace without its children. -/
def Namespace.childless (x : Namespace) : Namespace :=
  { x with children := .empty }

/-- Namespaces that are equal but for their children. -/
theorem Namespace.eq_of_childless {x y : Namespace} (h : x.childless = y.childless) :
    x = { y with children := x.children } := by
  cases x
  cases y
  cases h
  rfl

namespace Store

/-- The namespace of a directory, without its children. -/
def spaceAt (s : Store) (names : List String) : Option Namespace :=
  match s.catalog.find? (directoryId names) with
  | some (.nameSpace n) => some (s.get n).childless
  | _ => none

variable {s s' s'' : Store} {names : List String}

theorem spaceAt_of_find? {n : Ref Namespace}
    (hn : s.catalog.find? (directoryId names) = some (.nameSpace n)) :
    s.spaceAt names = some (s.get n).childless := by
  unfold spaceAt
  rw [hn]

theorem find?_of_spaceAt {x : Namespace} (hx : s.spaceAt names = some x) :
    ∃ n, s.catalog.find? (directoryId names) = some (.nameSpace n) := by
  unfold spaceAt at hx
  split at hx
  · rename_i n hn
    exact ⟨n, hn⟩
  · cases hx

theorem spaceAt_congr
    (hfind : s'.catalog.find? (directoryId names) = s.catalog.find? (directoryId names))
    (hsame : ∀ n, s.catalog.find? (directoryId names) = some (.nameSpace n) →
      (s'.get n).childless = (s.get n).childless) :
    s'.spaceAt names = s.spaceAt names := by
  unfold spaceAt
  rw [hfind]
  split
  · rename_i n hn
    rw [hsame n hn]
  · rfl

/-- Every registered namespace is that of a directory. -/
theorem Tree.exists_names (h : s.Tree) {id : String} {n : Ref Namespace}
    (hn : s.catalog.find? id = some (.nameSpace n)) : ∃ names, Slashless names ∧ id = directoryId names := by
  induction hlength : id.toList.length using Nat.strongRecOn generalizing id n with
  | ind length ih =>
      rcases h.parent hn with rfl | ⟨id', n', name, hname, rfl, hn', -⟩
      · exact ⟨[], nofun, rfl⟩
      · subst hlength
        obtain ⟨names, hnames, rfl⟩ := ih _ (by simp) hn' rfl
        exact ⟨names ++ [name], slashless_concat.mpr ⟨hnames, hname⟩, (directoryId_concat ..).symm⟩

/-- The directories of `path` have become namespaces; nothing else has changed but children. -/
structure Opens (path : List String → Prop) (s s' : Store) : Prop where
  built : Build.SiteBuilt s s'
  others : ∀ {e}, s.Has e → e.kind ≠ .nameSpace → s'.content e = s.content e
  new : ∀ {id e}, s'.catalog.find? id = some e → s.catalog.find? id = some e ∨ ∃ n, e = .nameSpace n
  spaceAt : ∀ {names}, Slashless names → (path names → s'.spaceAt names =
    (s.spaceAt names).or (some (.fresh names))) ∧ (¬ path names → s'.spaceAt names = s.spaceAt names)

namespace Opens

variable {path path' : List String → Prop}

theorem refl (h : s.Tree) (hpath : ∀ names, path names → (s.spaceAt names).isSome) :
    Opens path s s where
  built := .refl h
  others _ _ := rfl
  new := Or.inl
  spaceAt {names} _ := by
    refine ⟨fun hnames => ?_, fun _ => rfl⟩
    obtain ⟨x, hx⟩ := Option.isSome_iff_exists.mp (hpath names hnames)
    rw [hx, Option.some_or]

theorem trans (h : Opens path s s') (h' : Opens path' s' s'') :
    Opens (fun names => path names ∨ path' names) s s'' where
  built := h.built.trans h'.built
  others he hkind := (h'.others (h.built.grows.has he) hkind).trans (h.others he hkind)
  new he := (h'.new he).elim h.new Or.inr
  spaceAt {names} hnames := by
    obtain ⟨hin, hout⟩ := h.spaceAt hnames
    obtain ⟨hin', hout'⟩ := h'.spaceAt hnames
    by_cases hpath : path names
    · refine ⟨fun _ => ?_, fun hnot => absurd (Or.inl hpath) hnot⟩
      by_cases hpath' : path' names
      · rw [hin' hpath', hin hpath, Option.or_assoc, Option.some_or]
      · rw [hout' hpath', hin hpath]
    · constructor
      · intro hor
        rw [hin' (hor.resolve_left hpath), hout hpath]
      · intro hnot
        rw [hout' fun hpath' => hnot (Or.inr hpath'), hout hpath]

theorem congr (h : Opens path s s') (hpath : ∀ names, path' names ↔ path names) :
    Opens path' s s' := by
  rwa [show path' = path from funext fun names => propext (hpath names)]

end Opens

end Store

namespace Build

open Store

variable {s : Store} {n : Ref Namespace} {names : List String} {name : String}

/-! ## One directory -/

theorem new_register (x : Namespace) {id : String} {e : Entry}
    (he : (s.register x).1.catalog.find? id = some e) :
    s.catalog.find? id = some e ∨ ∃ n, e = .nameSpace n := by
  rw [catalog_register, Catalog.find?_insert] at he
  split at he
  · cases he
    exact Or.inr ⟨_, rfl⟩
  · exact Or.inl he

/-- The root comes in as a fresh namespace. -/
theorem opens_root (h : s.Tree) (hlabelled : s.Labelled)
    (hnone : s.catalog.find? rootNamespaceId = none) :
    Opens (· = []) s (s.register (Namespace.fresh [])).1 where
  built := siteBuilt_root h hlabelled rfl rfl hnone
  others he _ := content_register_of_has _ he
  new he := new_register _ he
  spaceAt {names} hnames := by
    constructor
    · rintro rfl
      rw [spaceAt_of_find? (placed_register s (Namespace.fresh [])).find?, get_register_self, spaceAt,
        show s.catalog.find? (directoryId []) = none from hnone]
      rfl
    · intro hne
      refine spaceAt_congr ?_ fun m hm => ?_
      · rw [catalog_register]
        exact Catalog.find?_insert_of_ne _ fun heq => hne (directoryId_injective hnames nofun heq)
      · have hget : (s.register (Namespace.fresh [])).1.get m = s.get m :=
          get_eq_of_content_eq (content_register_of_has _ (hlabelled hm).has)
        rw [hget]

/-- A child comes in as a fresh namespace and joins its parent. -/
theorem opens_child (h : s.Tree) (hlabelled : s.Labelled)
    (hn : s.Placed (.nameSpace n) (directoryId names)) (hnames : Slashless (names ++ [name]))
    (hnone : (s.get n).children.find? name = none) {x : Namespace}
    (hx : x = .fresh (names ++ [name])) :
    Opens (· = names ++ [name]) s (s.addChild n name x) ∧
      (s.addChild n name x).Placed (.nameSpace (s.register x).2) (directoryId (names ++ [name])) := by
  have hname : '/' ∉ name.toList := (slashless_concat.mp hnames).2
  have hid : x.id = directoryId names ++ "/" ++ name := by rw [hx, Namespace.fresh_concat]
  obtain ⟨hbuilt, hplaced⟩ := siteBuilt_child h hlabelled hn hname hnone hid (by rw [hx]; rfl)
  rw [← directoryId_concat] at hplaced
  -- the parent is changed in its children alone
  have hsame : ∀ m, s.Has (.nameSpace m) →
      ((s.addChild n name x).get m).childless = (s.get m).childless := by
    intro m hm
    by_cases heq : m = n
    · subst heq
      rw [get_addChild_parent hm]
      rfl
    · rw [get_addChild_of_ne hm heq]
  refine ⟨⟨hbuilt, fun {e} he hkind => ?_, fun he => new_register x he,
    fun {other} hother => ⟨?_, fun hne => ?_⟩⟩, hplaced⟩
  · have hne : e ≠ Record.entry n := by
      rintro rfl
      exact hkind rfl
    rw [addChild, content_modify_of_ne _ n _ hne, content_register_of_has x he]
  · rintro rfl
    have hfree : s.spaceAt (names ++ [name]) = none := by
      unfold Store.spaceAt
      split
      · rename_i m hm
        rw [directoryId_concat] at hm
        exact absurd hm (h.isNew hn.find? hname hnone m)
      · rfl
    rw [spaceAt_of_find? hplaced.find?, get_addChild_self hn.has, hfree, hx]
    rfl
  · refine spaceAt_congr ?_ fun m hm => hsame m (hlabelled hm).has
    rw [find?_addChild]
    refine if_neg fun heq => hne (directoryId_injective hother hnames ?_)
    rw [directoryId_concat, ← hid]
    exact heq

/-! ## All directories of a path -/

/-- **The root is found or comes in.** -/
theorem rootNamespace_run (h : s.Tree) (hlabelled : s.Labelled)
    (hroot : ∀ e, s.catalog.find? rootNamespaceId = some e → e.kind = .nameSpace) :
    ∃ n s', rootNamespace.run s = (.ok (.nameSpace n), s') ∧ Opens (· = []) s s' ∧
      s'.Placed (.nameSpace n) rootNamespaceId := by
  unfold rootNamespace
  rw [Action.run_bind_ok (show (get : Build Store).run s = (.ok s, s) from rfl)]
  cases hfound : s.catalog.find? rootNamespaceId with
  | some e =>
      have hkind := hroot e hfound
      cases e with
      | nameSpace n =>
          refine ⟨n, s, rfl, .refl h ?_, hlabelled hfound⟩
          rintro _ rfl
          have hempty : s.catalog.find? (directoryId []) = some (.nameSpace n) := hfound
          rw [spaceAt_of_find? hempty]
          rfl
      | _ => cases hkind
  | none =>
      exact ⟨_, _, rfl, opens_root h hlabelled hfound, placed_register s (Namespace.fresh [])⟩

theorem childNamespace_run (h : s.Tree) (hlabelled : s.Labelled)
    (hn : s.Placed (.nameSpace n) (directoryId names)) (hnames : Slashless (names ++ [name])) :
    ∃ c s', (childNamespace (.nameSpace n) name).run s = (.ok (.nameSpace c), s') ∧
      Opens (· = names ++ [name]) s s' ∧ s'.Placed (.nameSpace c) (directoryId (names ++ [name])) := by
  unfold childNamespace
  dsimp only
  rw [Action.run_bind_ok (show (read n : Build Namespace).run s = (.ok (s.get n), s) from rfl)]
  cases hfound : (s.get n).children.find? name with
  | some c =>
      have hc := (h.child hn.find? hfound).2
      rw [← directoryId_concat] at hc
      refine ⟨c, s, rfl, .refl h ?_, hc⟩
      rintro _ rfl
      rw [spaceAt_of_find? hc.find?]
      rfl
  | none =>
      have hid : (s.get n).id = directoryId names := hn.idOf
      obtain ⟨hopens, hplaced⟩ := opens_child h hlabelled hn hnames hfound
        (x := { id := (s.get n).id ++ "/" ++ name, name, parentId := some (s.get n).id })
        (by rw [Namespace.fresh_concat, hid])
      exact ⟨_, _, rfl, hopens, hplaced⟩

theorem descend_run (h : s.Tree) (hlabelled : s.Labelled)
    (hn : s.Placed (.nameSpace n) (directoryId names)) (more : List String)
    (hmore : Slashless (names ++ more)) :
    ∃ c s', (descend (.nameSpace n) more).run s = (.ok (.nameSpace c), s') ∧
      Opens (fun other => other <+: names ++ more ∧ names.length < other.length) s s' ∧
      s'.Placed (.nameSpace c) (directoryId (names ++ more)) := by
  induction more generalizing s n names with
  | nil =>
      rw [List.append_nil]
      have hnothing : Opens (fun _ => False) s s := .refl h fun _ => False.elim
      refine ⟨n, s, rfl, hnothing.congr ?_, hn⟩
      exact fun other => iff_of_false (fun h => absurd h.1.length_le (Nat.not_le.mpr h.2)) id
  | cons name more ih =>
      rw [List.append_cons] at hmore ⊢
      have hnames : Slashless (names ++ [name]) := hmore.of_prefix (List.prefix_append _ _)
      obtain ⟨c, s₁, hrun₁, hopens₁, hc⟩ := childNamespace_run h hlabelled hn hnames
      obtain ⟨d, s', hrun, hopens, hd⟩ := ih hopens₁.built.tree
        (hlabelled.grows hopens₁.built.grows) hc hmore
      refine ⟨d, s', ?_, (hopens₁.trans hopens).congr fun other => ?_, hd⟩
      · rw [descend, Action.run_bind_ok hrun₁, hrun]
      · rw [List.length_append, List.length_singleton]
        constructor
        · rintro ⟨hle, hlt⟩
          rcases Nat.lt_or_ge (names.length + 1) other.length with hlonger | hshort
          · exact Or.inr ⟨hle, hlonger⟩
          · left
            have hlength : other.length = (names ++ [name]).length := by simp; omega
            rw [List.prefix_iff_eq_take.mp hle, hlength, List.take_left]
        · rintro (rfl | ⟨hle, hlt⟩)
          · exact ⟨List.prefix_append _ _, by simp⟩
          · exact ⟨hle, by omega⟩

/-- **The namespace of a file is described by the read-me file, if it has no description, after all
directories on the path have become namespaces.** -/
theorem namespaceOf_run (h : s.Tree) (hlabelled : s.Labelled)
    (hroot : ∀ e, s.catalog.find? rootNamespaceId = some e → e.kind = .nameSpace) {file : Path}
    (hfile : Slashless file.parent.names) (readMe : ReadMe) :
    ∃ n s', Opens (· <+: file.parent.names) s s' ∧
      s'.Placed (.nameSpace n) (directoryId file.parent.names) ∧
      (namespaceOf file readMe).run s =
        if (s'.get n).description = "" then
          match readMe with
          | none => (.ok (.nameSpace n), s')
          | some (.ok text) =>
            (.ok (.nameSpace n), s'.modify n fun x => { x with description := text })
          | some (.error fault) => (.error fault, s')
        else (.ok (.nameSpace n), s') := by
  obtain ⟨top, s₁, hrun₁, hopens₁, htop⟩ := rootNamespace_run h hlabelled hroot
  have htop' : s₁.Placed (.nameSpace top) (directoryId []) := htop
  obtain ⟨n, s', hrun, hopens, hn⟩ := descend_run hopens₁.built.tree
    (hlabelled.grows hopens₁.built.grows) htop' file.parent.names hfile
  refine ⟨n, s', (hopens₁.trans hopens).congr fun names => ?_, hn, ?_⟩
  · rw [List.nil_append, List.length_nil, List.length_pos_iff]
    constructor
    · intro hle
      by_cases hnil : names = []
      · exact Or.inl hnil
      · exact Or.inr ⟨hle, hnil⟩
    · rintro (rfl | ⟨hle, -⟩)
      · exact List.nil_prefix
      · exact hle
  · unfold namespaceOf
    rw [Action.run_bind_ok hrun₁, Action.run_bind_ok hrun,
      Action.run_bind_ok (show (get : Build Store).run s' = (.ok s', s') from rfl)]
    change (if (Value.text (s'.get n).description).isText "" then _ else _ : Build Entry).run s' = _
    simp only [Value.isText_iff, Value.text.injEq]
    split
    · rcases readMe with _ | (fault | text) <;> rfl
    · rfl

end Build

end StepTrace
