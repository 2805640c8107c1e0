import StepTrace.Proofs.Batch.Outcomes
import StepTrace.Proofs.Build.Directories
import StepTrace.Proofs.Twins.Beside

/-!
# What a document adds to a registry

The build of a file on a registry leaves in it what the build on the empty registry leaves, its lone
build: the same parts (`Terms.copy`), each tag joined by the declarations and counts of the lone build
(`Tag.combine`), and the namespace of the file with its name.  So whatever was built before, a document
goes the same way, and what it leaves can be told from the lone build (`feature_leaves`).

If the file has not been built before, what it leaves comes on top of what was there
(`feature_adds`).  This needs what the registry must have of other files only: the owners of its tags
are theirs, and the namespace of the file lists and describes nothing that does not fit.
-/

namespace StepTrace

open Store HeapRecord

/-- The text of a read-me file; without one it is empty. -/
def ReadMe.text (readMe : ReadMe) : Except Fault String :=
  readMe.getD (.ok "")

namespace Tag

/-- What is told of a tag in one registry, on top of what is told in another one. -/
def merge (old new : Option Tag) : Option Tag :=
  new.elim old fun y => some (y.onto old)

theorem merge_none (old : Option Tag) : merge old none = old :=
  rfl

/-- What is told of a tag in one registry, joined to what is told in another one. -/
def combine (old new : Option Tag) : Option Tag :=
  new.elim old fun y => some (y.joinedTo old)

theorem combine_none (old : Option Tag) : combine old none = old :=
  rfl

theorem combine_some (old : Option Tag) (y : Tag) : combine old (some y) = some (y.joinedTo old) :=
  rfl

/-- What other owners have told comes on top. -/
theorem combine_eq_merge {old new : Option Tag}
    (h : ∀ x, old = some x → ∀ y, new = some y → ∀ owner ∈ x.owners, owner ∉ y.owners) :
    combine old new = merge old new := by
  cases new with
  | none => rfl
  | some y =>
      cases old with
      | none => rfl
      | some x => exact congrArg some (join_eq_plus (h x rfl y rfl))

end Tag

namespace Build

variable {s s' : Store}

/-! ## The namespace of a file -/

/-- The directories of the file have become namespaces, of which the innermost, `n`, is described by
the text. -/
structure Lodged (file : Path) (text : String) (n : Ref Namespace) (s s' : Store) : Prop where
  built : SiteBuilt s s'
  others : ∀ {e}, s.Has e → e.kind ≠ .nameSpace → s'.content e = s.content e
  new : ∀ {id e}, s'.catalog.find? id = some e → s.catalog.find? id = some e ∨ ∃ n, e = .nameSpace n
  placed : s'.Placed (.nameSpace n) (directoryId file.parent.names)
  spaceAt : ∀ {names}, Slashless names → s'.spaceAt names =
    if names = file.parent.names then
      some { (s.spaceAt names).getD (.fresh names) with description := text }
    else if names <+: file.parent.names then (s.spaceAt names).or (some (.fresh names))
    else s.spaceAt names

/-- Every directory is what it was, or fresh, but for its description. -/
theorem Lodged.space_eq {file : Path} {text : String} {n : Ref Namespace}
    (h : Lodged file text n s s') {names : List String} (hnames : Slashless names) {x : Namespace}
    (hx : s'.spaceAt names = some x) :
    ∃ text', x = { (s.spaceAt names).getD (.fresh names) with description := text' } := by
  rw [h.spaceAt hnames] at hx
  split at hx
  · cases hx
    exact ⟨text, rfl⟩
  · refine ⟨x.description, ?_⟩
    cases hold : s.spaceAt names with
    | none =>
        rw [hold] at hx
        split at hx <;> cases hx
        rfl
    | some y =>
        rw [hold] at hx
        split at hx <;> cases hx
        all_goals cases x; rfl

/-- A directory that was there is still there. -/
theorem Lodged.space_kept {file : Path} {text : String} {n : Ref Namespace}
    (h : Lodged file text n s s') {names : List String} (hnames : Slashless names) {y : Namespace}
    (hy : s.spaceAt names = some y) :
    ∃ text', s'.spaceAt names = some { y with description := text' } := by
  rw [h.spaceAt hnames, hy]
  split
  · exact ⟨text, rfl⟩
  · refine ⟨y.description, ?_⟩
    cases y
    split <;> rfl

theorem Lodged.home {file : Path} {text : String} {n : Ref Namespace} (h : Lodged file text n s s')
    (hfile : Slashless file.parent.names) : (s'.get n).childless =
      { (s.spaceAt file.parent.names).getD (.fresh file.parent.names) with description := text } := by
  have hspace := h.spaceAt hfile
  rw [spaceAt_of_find? h.placed.find?, if_pos rfl] at hspace
  exact Option.some.inj hspace

/-- Finding the namespace of a file registers nothing but directories. -/
theorem Lodged.find?_eq {file : Path} {text : String} {n : Ref Namespace}
    (h : Lodged file text n s s') {id : String} (hid : ¬ IsDirectory id) :
    s'.catalog.find? id = s.catalog.find? id := by
  cases hold : s.catalog.find? id with
  | some e => exact h.built.grows.catalog.find?_eq_some (fun _ hnew => hid hnew.1) hold
  | none =>
      rw [Option.eq_none_iff_forall_ne_some]
      intro e he
      rcases h.new he with hsome | ⟨m, rfl⟩
      · rw [hold] at hsome
        cases hsome
      · exact hid (h.built.tree.isDirectory he)

theorem Lodged.tagAt_eq {file : Path} {text : String} {n : Ref Namespace}
    (h : Lodged file text n s s') (hlabelled : s.Labelled) {id : String} (hid : IsTag id) :
    s'.tagAt id = s.tagAt id :=
  tagAt_congr (h.find?_eq fun hdirectory => hdirectory.not_isTag hid) fun _ ha =>
    get_eq_of_content_eq (h.others (hlabelled ha).has nofun)

/-- Directories that have been opened, with the innermost described as it was. -/
theorem Lodged.of_opens {file : Path} {n : Ref Namespace}
    (hopens : Opens (· <+: file.parent.names) s s')
    (hn : s'.Placed (.nameSpace n) (directoryId file.parent.names)) :
    Lodged file (s'.get n).description n s s' where
  built := hopens.built
  others := hopens.others
  new := hopens.new
  placed := hn
  spaceAt {names} hnames := by
    obtain ⟨hin, hout⟩ := hopens.spaceAt hnames
    split
    · rename_i heq
      subst heq
      have hspace := hin (List.prefix_refl _)
      rw [spaceAt_of_find? hn.find?] at hspace ⊢
      have hget : (s'.get n).childless =
          (s.spaceAt file.parent.names).getD (.fresh file.parent.names) := by
        cases hold : s.spaceAt file.parent.names with
        | none => simpa [hold] using hspace
        | some x => simpa [hold] using hspace
      rw [← hget]
      rfl
    · split
      · rename_i hle
        exact hin hle
      · rename_i hle
        exact hout hle

/-- The innermost directory is described anew. -/
theorem Lodged.describe {file : Path} {text : String} {n : Ref Namespace}
    (h : Lodged file text n s s') (hfile : Slashless file.parent.names) (hlabelled : s'.Labelled)
    (text' : String) :
    Lodged file text' n s (s'.modify n fun x => { x with description := text' }) := by
  set f : Namespace → Namespace := fun x => { x with description := text' }
  have hdescribed := siteBuilt_describe h.built.tree hlabelled h.placed.has text'
  refine ⟨h.built.trans hdescribed, fun {e} he hkind => ?_, fun {id e} he => ?_,
    hdescribed.placed h.placed, fun {names} hnames => ?_⟩
  · have hne : e ≠ .nameSpace n := by
      rintro rfl
      exact hkind rfl
    rw [content_modify_of_ne s' n f hne, h.others he hkind]
  · rw [catalog_modify] at he
    exact h.new he
  · split
    · rename_i heq
      subst heq
      have hhome := congrArg (fun x : Namespace => { x with description := text' }) (h.home hfile)
      rw [spaceAt_of_find? (hdescribed.placed h.placed).find?, get_modify_self s' n f h.placed.has]
      exact congrArg some hhome
    · rename_i hne
      have hsame : (s'.modify n f).spaceAt names = s'.spaceAt names := by
        refine spaceAt_congr (by rw [catalog_modify]) fun m hm => ?_
        have hother : m ≠ n := by
          rintro rfl
          exact hne (directoryId_injective hnames hfile
            ((hlabelled hm).idOf.symm.trans h.placed.idOf))
        have hget : (s'.modify n f).get m = s'.get m := get_eq_of_content_eq
          (content_modify_of_ne s' n f fun heq => hother (Entry.nameSpace.inj heq))
        rw [hget]
      rw [hsame, h.spaceAt hnames, if_neg hne]

/-- **Whether the namespace of a file is found or not, its directories are there afterwards**; only
the read-me file can be in the way. -/
theorem namespaceOf_left (h : s.Tree) (hlabelled : s.Labelled)
    (hroot : ∀ e, s.catalog.find? rootNamespaceId = some e → e.kind = .nameSpace) {file : Path}
    (hfile : Slashless file.parent.names) (readMe : ReadMe) :
    ∃ n text s', Lodged file text n s s' ∧
      ((namespaceOf file readMe).run s = (.ok (.nameSpace n), s') ∨ ∃ fault,
        readMe = some (.error fault) ∧ (namespaceOf file readMe).run s = (.error fault, s')) := by
  obtain ⟨n, s', hopens, hn, hrun⟩ := namespaceOf_run h hlabelled hroot hfile readMe
  have hlodged := Lodged.of_opens hopens hn
  have hlabelled' : s'.Labelled := hlabelled.grows hopens.built.grows
  split at hrun
  · rcases readMe with _ | (fault | text)
    · exact ⟨n, _, s', hlodged, Or.inl hrun⟩
    · exact ⟨n, _, s', hlodged, Or.inr ⟨fault, rfl, hrun⟩⟩
    · exact ⟨n, text, _, hlodged.describe hfile hlabelled' text, Or.inl hrun⟩
  · exact ⟨n, _, s', hlodged, Or.inl hrun⟩

/-- **A namespace is found the same way in all registries that describe it by the read-me file, if
at all.** -/
theorem namespaceOf_lodged (h : s.Tree) (hlabelled : s.Labelled)
    (hroot : ∀ e, s.catalog.find? rootNamespaceId = some e → e.kind = .nameSpace) {file : Path}
    (hfile : Slashless file.parent.names) (readMe : ReadMe)
    (hdescribed : ∀ x, s.spaceAt file.parent.names = some x →
      x.description = "" ∨ readMe = some (.ok x.description)) :
    (∀ text, readMe.text = .ok text → ∃ n s', (namespaceOf file readMe).run s =
      (.ok (.nameSpace n), s') ∧ Lodged file text n s s') ∧
    ∀ fault, readMe.text = .error fault →
      ∃ s', (namespaceOf file readMe).run s = (.error fault, s') := by
  obtain ⟨n, s', hopens, hn, hrun⟩ := namespaceOf_run h hlabelled hroot hfile readMe
  have hlodged := Lodged.of_opens hopens hn
  have hlabelled' : s'.Labelled := hlabelled.grows hopens.built.grows
  by_cases hempty : (s'.get n).description = ""
  · rw [if_pos hempty] at hrun
    rw [hempty] at hlodged
    rcases readMe with _ | (fault | text)
    · refine ⟨?_, nofun⟩
      rintro _ ⟨⟩
      exact ⟨n, s', hrun, hlodged⟩
    · refine ⟨nofun, ?_⟩
      rintro _ ⟨⟩
      exact ⟨s', hrun⟩
    · refine ⟨?_, nofun⟩
      rintro _ ⟨⟩
      exact ⟨n, _, hrun, hlodged.describe hfile hlabelled' text⟩
  · rw [if_neg hempty] at hrun
    -- a description that is there is that of the read-me file
    have hreadMe : readMe = some (.ok (s'.get n).description) := by
      have hspace := (hopens.spaceAt hfile).1 (List.prefix_refl _)
      rw [spaceAt_of_find? hn.find?] at hspace
      cases hold : s.spaceAt file.parent.names with
      | none =>
          rw [hold, Option.none_or] at hspace
          exact absurd (congrArg Namespace.description (Option.some.inj hspace)) hempty
      | some x =>
          rw [hold, Option.some_or] at hspace
          have hdescription : (s'.get n).description = x.description :=
            (congrArg Namespace.description (Option.some.inj hspace) :)
          rw [hdescription] at hempty ⊢
          exact (hdescribed x hold).resolve_left hempty
    subst hreadMe
    refine ⟨?_, nofun⟩
    rintro _ ⟨⟩
    exact ⟨n, s', hrun, hlodged⟩

end Build

/-! ## What twins beside a base share with it -/

theorem isDirectory_directoryId (names : List String) : IsDirectory (directoryId names) := by
  induction names using List.reverseRecOn with
  | nil => exact Or.inl rfl
  | append_singleton names name ih =>
      rw [directoryId_concat]
      exact ih.child name

namespace Twins

variable {b s t : Store} {file : String} {home n : Ref Namespace} {σ : Pairing}
variable (h : Twins (.beside b file home) σ s t)
include h

/-- A tag has what it had in the base, and what it has in the lone build. -/
theorem tag_beside (hb : b.IsBase file home) (hlabelled : t.Labelled) {id : String} (hid : IsTag id)
    (hkind : ∀ {e}, t.catalog.find? id = some e → e.kind = .tag) :
    s.tagAt id = Tag.combine (b.tagAt id) (t.tagAt id) ∧
      ∀ y, t.tagAt id = some y → y.IsCanonical ∧ ∀ owner ∈ y.owners, Under file owner := by
  have hcatalog : Catalog.Beside b file σ s t := h.catalog
  rcases hcatalog.tags hid with ⟨e, e', hs, ht, he⟩ | ⟨ht, hs⟩
  · have hsame := (h.kind_eq he).trans (hkind ht)
    have htag := hkind ht
    cases e <;> first | cases hsame; done | skip
    cases e' <;> first | cases htag; done | skip
    rename_i a a'
    have halike : (Content.tag (s.get a)).Alike (.beside b file home) σ (.tag (t.get a')) :=
      h.content he
    cases halike with
    | tag hx =>
        obtain ⟨heq, hcanonical, howners⟩ := hx
        have hid' : (t.get a').id = id := (hlabelled ht).idOf
        rw [hid'] at heq
        rw [tagAt_of_find? hs, tagAt_of_find? ht, Tag.combine_some, heq]
        refine ⟨rfl, fun y hy => ?_⟩
        cases hy
        exact ⟨hcanonical, howners⟩
  · rw [tagAt_of_none ht, Tag.combine_none]
    refine ⟨tagAt_congr hs fun a ha => ?_, nofun⟩
    exact get_eq_of_content_eq (hcatalog.kept (e := .tag a) (hb.labelled ha).has
      (h.unpaired (hs.trans ha) ht))

/-- Of the directories only that of the file has changed. -/
theorem space_beside (hb : b.IsBase file home) (hlabelled : s.Labelled) {names : List String}
    (hne : directoryId names ≠ (b.get home).id) : s.spaceAt names = b.spaceAt names := by
  have hcatalog : Catalog.Beside b file σ s t := h.catalog
  have hdirectory := isDirectory_directoryId names
  have hfind : s.catalog.find? (directoryId names) = b.catalog.find? (directoryId names) :=
    hcatalog.others (fun hunder => hb.name.featureFile.not_isDirectory hunder hdirectory)
      hdirectory.not_isTag
  refine spaceAt_congr hfind fun m hm => congrArg Namespace.childless ?_
  refine get_eq_of_content_eq (hcatalog.kept (e := .nameSpace m) (hb.labelled hm).has ?_)
  intro e' he
  have hkind := h.kind_eq he
  cases e' with
  | nameSpace m' =>
      have halike : (Content.nameSpace (s.get m)).Alike (.beside b file home) σ
        (.nameSpace (t.get m')) := h.content he
      cases halike with
      | nameSpace hx =>
          have hid : (s.get m).id = directoryId names := (hlabelled (hfind.trans hm)).idOf
          rw [Namespace.Beside.eq hx] at hid
          exact hne hid.symm
  | _ => cases hkind

/-- The namespace of the file lists the file as well, if the lone build lists it. -/
theorem home_beside (hpair : σ (.nameSpace home) (.nameSpace n)) :
    s.get home = { b.get home with
      featureIds := joinNames (b.get home).featureIds (t.get n).featureIds } ∧
    ((t.get n).featureIds = [] ∨ (t.get n).featureIds = [file]) := by
  have halike : (Content.nameSpace (s.get home)).Alike (.beside b file home) σ
    (.nameSpace (t.get n)) := h.content hpair
  cases halike with
  | nameSpace hx => exact ⟨Namespace.Beside.eq hx, Namespace.Beside.listed hx⟩

end Twins

/-! ## Copies -/

/-- The parts of a document are there as the lone build has left them. -/
def Catalog.Copied (file : String) (ρ : Pairing) (s t : Store) : Prop :=
  ∀ {id e'}, Under file id → t.catalog.find? id = some e' →
    ∃ e, s.catalog.find? id = some e ∧ ρ e e'

/-- Twins on these terms have the parts of one document in common. -/
def Terms.copy (file : String) : Terms where
  file id := id = file
  part := Under file
  tag _ _ := True
  nameSpace _ _ _ := True
  links _ _ := False
  catalog := Catalog.Copied file

section

variable {file : String} {σ : Pairing}

theorem Content.Alike.copy {b : Store} {home : Ref Namespace} {c c' : Content}
    (h : c.Alike (.beside b file home) σ c') : c.Alike (.copy file) σ c' := by
  cases h with
  | nameSpace => exact .nameSpace trivial
  | feature hid h => exact .feature hid h
  | scenario hid h => exact .scenario hid h
  | outline hid h => exact .outline hid h
  | examples hid h => exact .examples hid h
  | step hid h => exact .step hid h
  | tag => exact .tag trivial
  | definition _ hlinks | transform _ hlinks => exact hlinks.elim

theorem Twins.copy {b s t : Store} {home : Ref Namespace}
    (h : Twins (.beside b file home) σ s t) : Twins (.copy file) σ s t := by
  refine ⟨⟨h.biUnique, h.has, fun he => (h.content he).copy, fun {id e'} hunder ht => ?_⟩, h.tags⟩
  rcases Catalog.Beside.parts h.catalog hunder with ⟨e, e₁, hs, ht₁, he⟩ | ⟨hnone, -⟩
  · rw [ht] at ht₁
    cases ht₁
    exact ⟨e, hs, he⟩
  · rw [ht] at hnone
    cases hnone

/-- A copy stays one, if its parts stay as they are and registered, and its tags registered. -/
theorem Twins.copy_of_same {s s' t : Store} (h : Twins (.copy file) σ s t)
    (hhas : ∀ {e}, s.Has e → s'.Has e)
    (hcontent : ∀ {e}, s.Has e → e.kind ≠ .tag → e.kind ≠ .nameSpace → s'.content e = s.content e)
    (hfind : ∀ {id e}, Under file id ∨ IsTag id → s.catalog.find? id = some e →
      s'.catalog.find? id = some e) : Twins (.copy file) σ s' t := by
  refine ⟨⟨h.biUnique, fun he => ⟨hhas (h.has he).1, (h.has he).2⟩, fun {e e'} he => ?_,
    fun {id e'} hunder ht => ?_⟩, fun hab => ?_⟩
  · have hkind := h.kind_eq he
    by_cases htag : e.kind = .tag
    · cases e <;> cases e' <;> first | cases hkind; done | cases htag; done | exact .tag trivial
    by_cases hspace : e.kind = .nameSpace
    · cases e <;> cases e' <;> first | cases hkind; done | cases hspace; done |
        exact .nameSpace trivial
    rw [hcontent (h.has he).1 htag hspace]
    exact h.content he
  · obtain ⟨e, hs, he⟩ := h.catalog hunder ht
    exact ⟨e, hfind (Or.inl hunder) hs, he⟩
  · obtain ⟨id, hid, ha, hb⟩ := h.tags hab
    exact ⟨id, hid, hfind (Or.inr hid) ha, hb⟩

/-- A copy stays one, if what comes in is neither of its file nor a tag. -/
theorem Twins.copy_grows {s s' t : Store} {region : String → Entry → Prop} {hole : Entry → Prop}
    (h : Twins (.copy file) σ s t) (hgrows : Grows region hole s s')
    (hhole : ∀ e, hole e → e.kind = .nameSpace)
    (hregion : ∀ id e, region id e → ¬ Under file id ∧ ¬ IsTag id) : Twins (.copy file) σ s' t := by
  refine h.copy_of_same hgrows.has (fun he htag hspace => ?_) fun {id e} hid he => ?_
  · exact hgrows.content_eq he (fun hin => hspace (hhole _ hin)) htag hspace
  · refine hgrows.catalog.find?_eq_some (fun other hin => ?_) he
    exact hid.elim (hregion id other hin).1 (hregion id other hin).2

/-- A copy stays one, whatever is built later of other files. -/
theorem Twins.copy_kept {s s' t : Store} (h : Twins (.copy file) σ s t) (hkept : Kept s s')
    (hc : s'.catalog.Consistent) : Twins (.copy file) σ s' t :=
  h.copy_of_same hkept.has hkept.content fun _ he => hkept.find? hc he

end

namespace Batch

variable {names : List String} {s s' t : Store} {file : Path}

/-- What the registry has of other files leaves room for the file. -/
structure Welcomes (s : Store) (file : Path) (readMe : ReadMe) : Prop where
  owners : ∀ {id x}, s.tagAt id = some x → ∀ owner ∈ x.owners, ¬ Under file.toString owner
  listed : ∀ {x}, s.spaceAt file.parent.names = some x →
    ∀ id ∈ x.featureIds, ¬ Under file.toString id
  described : ∀ {x}, s.spaceAt file.parent.names = some x →
    x.description = "" ∨ readMe = some (.ok x.description)

theorem welcomes_empty (file : Path) (readMe : ReadMe) : Welcomes {} file readMe :=
  ⟨nofun, nofun, nofun⟩

/-- What the build of a document leaves of a registry, told from what its lone build has left. -/
structure Leaves (file : Path) (text : String) (built : Bool) (t s s' : Store) : Prop where
  copy : ∃ σ, Twins (.copy file.toString) σ s' t
  tags : ∀ {id}, IsTag id → s'.tagAt id = Tag.combine (s.tagAt id) (t.tagAt id)
  spaceAt : ∀ {names}, Slashless names → s'.spaceAt names =
    if names = file.parent.names then
      some { (s.spaceAt names).getD (.fresh names) with
        description := text
        featureIds := joinNames ((s.spaceAt names).getD (.fresh names)).featureIds
          (if built then [file.toString] else []) }
    else if names <+: file.parent.names then (s.spaceAt names).or (some (.fresh names))
    else s.spaceAt names
  new : ∀ {id e}, s'.catalog.find? id = some e → s.catalog.find? id = some e ∨ IsTag id ∨
    IsDirectory id ∨ Under file.toString id ∧ (t.catalog.find? id).isSome
  /-- Of an earlier document of the file all is left that is not registered anew. -/
  left : ∀ {id}, Under file.toString id → t.catalog.find? id = none →
    s'.catalog.find? id = s.catalog.find? id
  /-- The lone build has tagged parts of the file only. -/
  own : ∀ {id y}, IsTag id → t.tagAt id = some y →
    y.IsCanonical ∧ ∀ owner ∈ y.owners, Under file.toString owner

/-- What a document adds to a registry, told from what its lone build has left. -/
structure Adds (file : Path) (text : String) (built : Bool) (t s s' : Store) : Prop where
  copy : ∃ σ, Twins (.copy file.toString) σ s' t
  tags : ∀ {id}, IsTag id → s'.tagAt id = Tag.merge (s.tagAt id) (t.tagAt id)
  spaceAt : ∀ {names}, Slashless names → s'.spaceAt names =
    if names = file.parent.names then
      some { (s.spaceAt names).getD (.fresh names) with
        description := text
        featureIds := ((s.spaceAt names).getD (.fresh names)).featureIds ++
          if built then [file.toString] else [] }
    else if names <+: file.parent.names then (s.spaceAt names).or (some (.fresh names))
    else s.spaceAt names
  new : ∀ {id e}, s'.catalog.find? id = some e → s.catalog.find? id = some e ∨ IsTag id ∨
    IsDirectory id ∨ Under file.toString id ∧ (t.catalog.find? id).isSome
  /-- The lone build has tagged parts of the file only. -/
  own : ∀ {id y}, IsTag id → t.tagAt id = some y →
    y.IsCanonical ∧ ∀ owner ∈ y.owners, Under file.toString owner

/-- What comes to a registry without the file comes on top. -/
theorem Leaves.adds {text : String} {built : Bool} (h : Leaves file text built t s s')
    {readMe : ReadMe} (hwelcome : Welcomes s file readMe) : Adds file text built t s s' := by
  refine ⟨h.copy, fun {id} hid => ?_, fun {names} hnames => ?_, h.new, h.own⟩
  · rw [h.tags hid, Tag.combine_eq_merge fun x hx y hy owner hold hnew => ?_]
    exact hwelcome.owners hx owner hold ((h.own hid hy).2 owner hnew)
  · rw [h.spaceAt hnames]
    split
    · rename_i heq
      subst heq
      have hlisted : ∀ id ∈ ((s.spaceAt file.parent.names).getD (.fresh file.parent.names)).featureIds,
          id ∉ if built then [file.toString] else [] := by
        intro id hid hmem
        cases hold : s.spaceAt file.parent.names with
        | none =>
            rw [hold] at hid
            cases hid
        | some x =>
            rw [hold] at hid
            refine hwelcome.listed hold id hid ?_
            split at hmem
            · rw [List.mem_singleton.mp hmem]
              exact .refl _
            · cases hmem
      rw [joinNames_of_disjoint hlisted]
    · rfl

theorem Outcome.of_run {call : BuildCall} {result : Option (Ref Feature)}
    (hrun : (Build.feature call.file call.content call.excluded call.readMe).run s =
      (.ok result, s')) : Outcome call s result s' := by
  cases result with
  | none => exact .passed hrun
  | some r => exact .built hrun

/-- The registry with the namespace of the file in place is a base for its document. -/
theorem isBase_of_lodged (h : Pure s) (hfile : PlainPath file) {text : String}
    {n : Ref Namespace} {b : Store} (hlodged : Build.Lodged file text n s b) :
    b.IsBase file.toString n := by
  have hpure : Pure b := Sorted.siteBuilt h hlodged.built
  refine ⟨⟨file, hfile, rfl⟩, hpure.labelled, fun he hid => ?_, hlodged.placed.has⟩
  obtain ⟨t, rfl⟩ := Pure.isTag hpure he hid
  rfl

/-- What twins beside the base tell of the registry before the namespace was found. -/
theorem Leaves.of_twins {text : String} {n n' : Ref Namespace} {b : Store} {σ : Pairing}
    (hfile : Slashless file.parent.names) (hlabelled : s.Labelled)
    (hlodged : Build.Lodged file text n s b) (hb : b.IsBase file.toString n) (hs' : s'.Labelled)
    (ht : Pure t) (h : Twins (.beside b file.toString n) σ s' t)
    (hpair : σ (.nameSpace n) (.nameSpace n')) {built : Bool}
    (hlisted : (t.get n').featureIds = if built then [file.toString] else []) :
    Leaves file text built t s s' := by
  have hcatalog : Catalog.Beside b file.toString σ s' t := h.catalog
  have htags : ∀ {id}, IsTag id → s'.tagAt id = Tag.combine (b.tagAt id) (t.tagAt id) ∧
      ∀ y, t.tagAt id = some y → y.IsCanonical ∧ ∀ owner ∈ y.owners, Under file.toString owner := by
    intro id hid
    refine h.tag_beside hb ht.labelled hid fun he => ?_
    obtain ⟨a, rfl⟩ := Pure.isTag ht he hid
    rfl
  have hname := hb.name.featureFile
  have hbase : ∀ {id}, Under file.toString id → b.catalog.find? id = s.catalog.find? id :=
    fun hunder => hlodged.find?_eq (hname.not_isDirectory hunder)
  constructor
  case copy => exact ⟨σ, h.copy⟩
  case tags =>
    intro id hid
    rw [(htags hid).1, hlodged.tagAt_eq hlabelled hid]
  case spaceAt =>
    intro names hnames
    by_cases heq : names = file.parent.names
    · subst heq
      have hfind : s'.catalog.find? (directoryId file.parent.names) = some (.nameSpace n) := by
        have hdirectory := isDirectory_directoryId file.parent.names
        rw [hcatalog.others (fun hunder => hb.name.featureFile.not_isDirectory hunder hdirectory)
          hdirectory.not_isTag, hlodged.placed.find?]
      have hhome := hlodged.home hfile
      rw [if_pos rfl, spaceAt_of_find? hfind, (h.home_beside hpair).1, hlisted]
      have hsame := congrArg (fun x : Namespace => { x with
        featureIds := joinNames x.featureIds (if built then [file.toString] else []) }) hhome
      exact congrArg some hsame
    · rw [if_neg heq, h.space_beside hb hs', hlodged.spaceAt hnames, if_neg heq]
      rw [show (b.get n).id = directoryId file.parent.names from hlodged.placed.idOf]
      exact fun hid => heq (directoryId_injective hnames hfile hid)
  case new =>
    intro id e he
    -- a part of the file, a tag, or what finding the namespace has left
    by_cases hunder : Under file.toString id
    · rcases hcatalog.parts hunder with ⟨e₁, e', -, ht', -⟩ | ⟨-, hsame⟩
      · exact Or.inr (Or.inr (Or.inr ⟨hunder, by rw [ht']; rfl⟩))
      · rw [hsame, hbase hunder] at he
        exact Or.inl he
    by_cases htag : IsTag id
    · exact Or.inr (Or.inl htag)
    · rw [hcatalog.others hunder htag] at he
      rcases hlodged.new he with hold | ⟨m, rfl⟩
      · exact Or.inl hold
      · exact Or.inr (Or.inr (Or.inl (hlodged.built.tree.isDirectory he)))
  case left =>
    intro id hunder hnone
    rcases hcatalog.parts hunder with ⟨_, e', -, ht', -⟩ | ⟨-, hsame⟩
    · rw [hnone] at ht'
      cases ht'
    · rw [hsame, hbase hunder]
  case own => exact fun hid => (htags hid).2 _

theorem feature_eq (file : Path) (content : Value) (excluded : List String) (readMe : ReadMe) :
    Build.feature file content excluded readMe = Build.namespaceOf file readMe >>= fun e =>
      Build.document ⟨file.toString, excluded.map stripSigil, e⟩ content := by
  unfold Build.feature Build.site
  simp only [bind_assoc, pure_bind]

/-- **A build on a registry goes the way of the lone build and leaves what that has left**, whether
the file has been built before or not. -/
theorem feature_leaves (h : Orderly PlainName False s) (hfile : PlainPath file) {readMe : ReadMe}
    (hdescribed : ∀ x, s.spaceAt file.parent.names = some x →
      x.description = "" ∨ readMe = some (.ok x.description)) (content : Value)
    (excluded : List String) :
    (∀ r' t, (Build.feature file content excluded readMe).run {} = (.ok r', t) →
      ∃ text r s', readMe.text = .ok text ∧
        (Build.feature file content excluded readMe).run s = (.ok r, s') ∧
        r.isSome = r'.isSome ∧ Leaves file text r'.isSome t s s') ∧
    ∀ fault t, (Build.feature file content excluded readMe).run {} = (.error fault, t) →
      isLocal fault →
      ∃ s', (Build.feature file content excluded readMe).run s = (.error fault, s') := by
  have hslash : Slashless file.parent.names := hfile.proper.slashless
  have hempty : Orderly PlainName False {} := orderly_empty
  have hroot : ∀ {s : Store}, Pure s →
      ∀ e, s.catalog.find? rootNamespaceId = some e → e.kind = .nameSpace := by
    intro s h e he
    obtain ⟨m, rfl⟩ := Pure.isDirectory h he (Or.inl rfl)
    rfl
  -- whatever a build leaves is in order
  have hpure : ∀ {s s' : Store} {r}, Pure s →
      (Build.feature file content excluded readMe).run s = (.ok r, s') → Pure s' := by
    intro s s' r h hrun
    have hleft := (Build.feature_built h (fun _ => PlainName.featureFile) hfile.toFeaturePath content
      excluded readMe).1
    rw [hrun] at hleft
    exact Sorted.featureLeft h (fun _ => PlainName.featureFile) ⟨_, hfile, rfl⟩ hleft
  obtain ⟨hok, herror⟩ := Build.namespaceOf_lodged h.tree h.labelled (hroot h.toSorted) hslash readMe
    hdescribed
  obtain ⟨hok', herror'⟩ := Build.namespaceOf_lodged (s := {}) hempty.tree hempty.labelled
    (hroot hempty.toSorted) hslash readMe nofun
  rw [feature_eq]
  cases htext : readMe.text with
  | error fault =>
      -- the read-me file is refused, wherever the file is built
      obtain ⟨s₁, hrun⟩ := herror fault htext
      obtain ⟨t₁, hrun'⟩ := herror' fault htext
      rw [Action.run_bind_error hrun', Action.run_bind_error hrun]
      refine ⟨nofun, ?_⟩
      rintro _ _ ⟨⟩ -
      exact ⟨s₁, rfl⟩
  | ok text =>
      obtain ⟨n, b, hrun, hlodged⟩ := hok text htext
      obtain ⟨n', t₁, hrun', hlodged'⟩ := hok' text htext
      have hb := isBase_of_lodged h.toSorted hfile hlodged
      have hhome' := hlodged'.home hslash
      have hspaces : ∀ {id e}, t₁.catalog.find? id = some e → IsDirectory id := by
        intro id e he
        rcases hlodged'.new he with hold | ⟨m, rfl⟩
        · cases hold
        · exact hlodged'.built.tree.isDirectory he
      have hid : (t₁.get n').id = (b.get n).id := hlodged'.placed.idOf.trans hlodged.placed.idOf.symm
      have hunlisted : (t₁.get n').featureIds = [] := (congrArg Namespace.featureIds hhome' :)
      obtain ⟨hbuilt, hrefused⟩ := Build.document_beside hb hspaces hlodged'.placed.has hid hunlisted
        content (excluded.map stripSigil)
      rw [Action.run_bind_ok hrun', Action.run_bind_ok hrun]
      refine ⟨fun r' t hdocument' => ?_, hrefused⟩
      obtain ⟨r, s', σ, hdocument, htwins, hr, hpair⟩ := hbuilt r' t hdocument'
      -- both registries are in order at the end
      have hrun₁ : (Build.feature file content excluded readMe).run s = (.ok r, s') := by
        rw [feature_eq, Action.run_bind_ok hrun, hdocument]
      have hrun₂ : (Build.feature file content excluded readMe).run {} = (.ok r', t) := by
        rw [feature_eq, Action.run_bind_ok hrun', hdocument']
      have hs' := hpure h.toSorted hrun₁
      have ht := hpure hempty.toSorted hrun₂
      have hlisted : (t.get n').featureIds = if r'.isSome then [file.toString] else [] := by
        have hleft := (Build.document_built t₁ ⟨file.toString, excluded.map stripSigil,
          .nameSpace n'⟩ content).2
        rw [hdocument'] at hleft
        cases r' with
        | none =>
            rw [show t = t₁ from hleft none rfl]
            exact hunlisted
        | some r₀ =>
            obtain ⟨-, -, -, ⟨m, hm, hmem⟩, -⟩ := hleft (some r₀) rfl
            cases hm
            rcases (htwins.home_beside hpair).2 with hnil | hone
            · exact absurd (hnil ▸ hmem hlodged'.placed.has) List.not_mem_nil
            · exact hone
      exact ⟨text, r, s', rfl, hdocument, by cases hr <;> rfl, .of_twins hslash h.labelled
        hlodged hb hs'.labelled ht htwins hpair hlisted⟩

/-- **A build of a new file adds what the lone build has left.** -/
theorem Sound.feature_adds (h : Sound names s) (hfile : PlainPath file) {readMe : ReadMe}
    (hwelcome : Welcomes s file readMe) (content : Value) (excluded : List String) :
    (∀ r' t, (Build.feature file content excluded readMe).run {} = (.ok r', t) →
      ∃ text r s', readMe.text = .ok text ∧
        (Build.feature file content excluded readMe).run s = (.ok r, s') ∧
        r.isSome = r'.isSome ∧ Adds file text r'.isSome t s s') ∧
    ∀ fault t, (Build.feature file content excluded readMe).run {} = (.error fault, t) →
      isLocal fault →
      ∃ s', (Build.feature file content excluded readMe).run s = (.error fault, s') := by
  obtain ⟨hbuilt, hrefused⟩ := feature_leaves h.orderly hfile (fun _ => hwelcome.described) content
    excluded
  refine ⟨fun r' t hrun => ?_, hrefused⟩
  obtain ⟨text, r, s', htext, hrun', hsome, hleaves⟩ := hbuilt r' t hrun
  exact ⟨text, r, s', htext, hrun', hsome, hleaves.adds hwelcome⟩

/-- What holds of the build of a file holds of the build of a document in a batch. -/
theorem buildDocument_leaves {tree : FileTree} {path : Path} (h : Orderly PlainName False s)
    (hfile : PlainPath file) (settings : Settings)
    (hdescribed : ∀ x, s.spaceAt file.parent.names = some x →
      x.description = "" ∨ readMeOf tree path = some (.ok x.description)) (content : Value) :
    (∀ r' t, (buildDocument tree settings file path content).run {} = (.ok r', t) →
      ∃ text r s', (readMeOf tree path).text = .ok text ∧
        (buildDocument tree settings file path content).run s = (.ok r, s') ∧
        r.isSome = r'.isSome ∧ Leaves file text r'.isSome t s s') ∧
    ∀ fault t, (buildDocument tree settings file path content).run {} = (.error fault, t) →
      isLocal fault →
      ∃ s', (buildDocument tree settings file path content).run s = (.error fault, s') := by
  rcases excludedBy_cases settings with hexcluded | ⟨fault, hexcluded⟩
  · rw [buildDocument_eq hexcluded]
    exact feature_leaves h hfile hdescribed content _
  · rw [buildDocument_run_error hexcluded, buildDocument_run_error hexcluded]
    refine ⟨nofun, ?_⟩
    rintro _ _ ⟨⟩ -
    exact ⟨s, rfl⟩

end Batch

end StepTrace
