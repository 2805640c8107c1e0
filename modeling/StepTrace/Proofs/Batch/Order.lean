import StepTrace.Proofs.Batch.Gathered
import StepTrace.Proofs.Twins.Unordered

/-!
# Registries that are equal up to order

Two registries agree up to order if the same identifiers are registered, for records that are equal
but for the order in which tags list their owners and sites, and namespaces the features in them
(`Terms.unordered`).

What a batch leaves is the sum of its lone builds, and a sum does not depend on the order: so after
the same documents in another order the registries agree (`Summed.agree`).  The parts of a document
stand for each other because both are copies of those of its lone build; tags and namespaces, because
they are registered under the same identifier.
-/

namespace StepTrace

open Store

/-! ## Copies of the same parts -/

section

variable {σ σ' χ : Pairing}

theorem Pairing.Refs.meet {α : Type} [Record α] {xs ys zs : List (Ref α)} (h : σ.Refs xs zs)
    (h' : σ'.Refs ys zs) (hχ : ∀ a b c : Ref α, σ (Record.entry a) (Record.entry c) →
      σ' (Record.entry b) (Record.entry c) → χ (Record.entry a) (Record.entry b)) :
    χ.Refs xs ys := by
  induction h generalizing ys with
  | nil =>
      cases h'
      exact .nil
  | cons hac _ ih =>
      cases h' with
      | cons hbc hrest => exact .cons (hχ _ _ _ hac hbc) (ih hrest)

/-- Records that are alike are of the same type. -/
theorem Content.Alike.isPart_iff {τ : Terms} {c c' : Content} (h : c.Alike τ σ c') :
    c.IsPart ↔ c'.IsPart := by
  cases h <;> exact Iff.rfl

theorem Content.Alike.under_of_copy {file : String} {c c' : Content} (h : c.Alike (.copy file) σ c')
    (hpart : c.IsPart) : Under file c.id := by
  cases h with
  | feature hid => exact (show _ = file from hid) ▸ .refl _
  | scenario hid | outline hid | examples hid | step hid => exact hid
  | nameSpace | tag | definition | transform => exact hpart.elim

/-- Two copies of a part of a document are alike. -/
theorem Content.Alike.meet {file : String} {c c' d : Content} (h : c.Alike (.copy file) σ d)
    (h' : c'.Alike (.copy file) σ' d) (hpart : c.IsPart)
    (hχ : ∀ a b e, a.kind ≠ .nameSpace → σ a e → σ' b e → χ a b) : c.Alike .unordered χ c' := by
  have hrefs {α : Type} [Record α] {xs ys zs : List (Ref α)} (hxs : σ.Refs xs zs)
      (hys : σ'.Refs ys zs) (hkind : ∀ r : Ref α, (Record.entry r).kind ≠ .nameSpace) :
      χ.Refs xs ys :=
    hxs.meet hys fun a b c => hχ _ _ _ (hkind a)
  cases h with
  | feature _ h =>
      cases h' with
      | feature _ h' =>
          refine .feature trivial ⟨h.bare.trans h'.bare.symm, hrefs h.tags h'.tags (fun _ => nofun), ?_,
            hrefs h.background h'.background (fun _ => nofun)⟩
          -- A container is a scenario or an outline, never a namespace.
          have hcontainers : ∀ {xs ys zs : List Container},
              List.Forall₂ (fun c d => σ c.entry d.entry) xs zs →
              List.Forall₂ (fun c d => σ' c.entry d.entry) ys zs →
              List.Forall₂ (fun c d => χ c.entry d.entry) xs ys := by
            intro xs ys zs hxs hys
            induction hxs generalizing ys with
            | nil =>
                cases hys
                exact .nil
            | @cons c _ _ _ hac _ ih =>
                cases hys with
                | cons hbc hrest => exact .cons (hχ _ _ _ (by cases c <;> nofun) hac hbc) (ih hrest)
          exact hcontainers h.scenarios h'.scenarios
  | scenario _ h =>
      cases h' with
      | scenario _ h' =>
          exact .scenario trivial ⟨h.bare.trans h'.bare.symm, hrefs h.steps h'.steps (fun _ => nofun),
            hrefs h.tags h'.tags (fun _ => nofun)⟩
  | outline _ h =>
      cases h' with
      | outline _ h' =>
          exact .outline trivial ⟨h.bare.trans h'.bare.symm, hrefs h.steps h'.steps (fun _ => nofun),
            hrefs h.tags h'.tags (fun _ => nofun), hrefs h.examples h'.examples (fun _ => nofun),
            hrefs h.scenarios h'.scenarios (fun _ => nofun)⟩
  | examples _ h =>
      cases h' with
      | examples _ h' =>
          exact .examples trivial ⟨h.bare.trans h'.bare.symm, hrefs h.tags h'.tags (fun _ => nofun)⟩
  | step _ h =>
      cases h' with
      | step _ h' =>
          exact .step trivial ⟨h.bare.trans h'.bare.symm, hrefs h.definition h'.definition (fun _ => nofun),
            hrefs h.transforms h'.transforms (fun _ => nofun)⟩
  | nameSpace | tag | definition | transform => exact hpart.elim

end

/-! ## What is told of a tag, in any order -/

theorem Tag.gather_perm {told told' : List Tag} (h : told.Perm told') {id : String}
    (htold : ∀ x ∈ told, x.id = id ∧ x.IsCanonical) :
    Option.Rel Tag.Alike (gather told) (gather told') := by
  cases told with
  | nil =>
      rw [List.nil_perm.mp h]
      exact .none
  | cons x rest =>
      cases told' with
      | nil => cases List.perm_nil.mp h
      | cons y rest' =>
          obtain ⟨hx, hcanonical⟩ := htold x (List.mem_cons_self ..)
          obtain ⟨hy, hcanonical'⟩ := htold y (h.symm.subset (List.mem_cons_self ..))
          have hvalue : x.value = y.value :=
            tagId_injective (hcanonical.id.symm.trans (hx.trans (hy.symm.trans hcanonical'.id)))
          refine .some ⟨hx.trans hy.symm, ?_, hvalue, h.flatMap_right _, h.flatMap_right _,
            (h.map _).sum_eq⟩
          exact hcanonical.name.trans ((congrArg stripSigil hvalue).trans hcanonical'.name.symm)

namespace Store

variable {s : Store}

/-- A child is registered below its parent, and what is registered there is the child. -/
theorem Tree.children_iff (h : s.Tree) {id name : String} {n c : Ref Namespace}
    (hn : s.catalog.find? id = some (.nameSpace n)) (hname : '/' ∉ name.toList) :
    (s.get n).children.find? name = some c ↔
      s.catalog.find? (id ++ "/" ++ name) = some (.nameSpace c) := by
  refine ⟨fun hc => (h.child hn hc).2.find?, fun hc => ?_⟩
  rcases h.parent hc with hroot | ⟨id', n', name', hname', heq, hn', hchild⟩
  · exact absurd hroot (child_ne_root _ _)
  · obtain ⟨rfl, rfl⟩ := child_injective hname hname' heq
    rw [hn] at hn'
    cases hn'
    exact hchild

/-- What is registered under the name of a file is part of its document. -/
theorem Pure.isPart (h : Pure s) {file id : String} (hfile : PlainName file)
    (hunder : Under file id) {e : Entry} (he : s.catalog.find? id = some e) :
    (s.content e).IsPart := by
  have hfits := h.fits he
  cases e with
  | feature | scenario | outline | examples | step => trivial
  | nameSpace => exact hfile.featureFile.not_isDirectory hunder hfits
  | tag => exact hfile.no_tag_under hunder hfits
  | definition | transform => exact hfits.elim

end Store

namespace Batch

variable {readMes : List String → ReadMe} {names : List String} {ys ys' : List Lone}
variable {s s' : Store}

/-- The registry holds what the lone builds have left, put together in any order. -/
structure Summed (readMes : List String → ReadMe) (ys : List Lone) (s : Store) : Prop where
  orderly : Orderly PlainName False s
  lone : ∀ y ∈ ys, y.IsBuild readMes
  nodup : (ys.map fun y => y.file.toString).Nodup
  /-- What is told of a tag may have been told in another order than that of the files. -/
  tagAt : ∀ {id}, IsTag id → ∃ told, told.Perm (toldOf ys id) ∧ s.tagAt id = Tag.gather told
  spaceAt : ∀ {names}, Slashless names → s.spaceAt names = spaceOf readMes ys names
  copy : ∀ y ∈ ys, ∃ σ, Twins (.copy y.file.toString) σ s y.left
  /-- Nothing else is registered. -/
  known : ∀ {id e}, s.catalog.find? id = some e → IsTag id ∨ IsDirectory id ∨
    ∃ y ∈ ys, Under y.file.toString id ∧ (y.left.catalog.find? id).isSome

theorem Gathered.summed (h : Gathered readMes names ys s) : Summed readMes ys s where
  orderly := h.sound.orderly
  lone y hy := (h.lone y hy).1
  nodup := h.nodup
  tagAt hid := ⟨_, .refl _, h.tagAt hid⟩
  spaceAt := h.spaceAt
  copy := h.copy
  known := h.known

/-- What is told of a tag is told under one identifier. -/
theorem Summed.told (h : Summed readMes ys s) {id : String} (hid : IsTag id) :
    ∀ x ∈ toldOf ys id, x.id = id ∧ x.IsCanonical := by
  intro x hx
  obtain ⟨y, hy, hyx⟩ := List.mem_filterMap.mp hx
  have hbuild := h.lone y hy
  exact ⟨hbuild.sound.orderly.labelled.tagAt_id hyx, (hbuild.own hid hyx).1⟩

/-- The namespaces of two orders differ in the order of their features alone. -/
theorem spaceOf_perm (hperm : ys.Perm ys') (directory : List String) :
    Option.Rel (fun x y => x = { y with featureIds := x.featureIds } ∧
        x.featureIds.Perm y.featureIds)
      (spaceOf readMes ys directory) (spaceOf readMes ys' directory) := by
  have hopen : (∃ y ∈ ys, directory <+: y.directory) ↔ ∃ y ∈ ys', directory <+: y.directory :=
    exists_congr fun y => and_congr_left fun _ => hperm.mem_iff
  have hmem : directory ∈ ys.map Lone.directory ↔ directory ∈ ys'.map Lone.directory :=
    (hperm.map _).mem_iff
  unfold spaceOf
  simp only [hopen, hmem]
  split
  · exact .some ⟨rfl, (hperm.filter _).map _⟩
  · exact .none

section

variable (h : Summed readMes ys s) (h' : Summed readMes ys' s')
variable (hperm : ys.Perm ys')
include h h' hperm

theorem Summed.tagAt_perm {id : String} (hid : IsTag id) :
    Option.Rel Tag.Alike (s.tagAt id) (s'.tagAt id) := by
  obtain ⟨told, htold, heq⟩ := h.tagAt hid
  obtain ⟨told', htold', heq'⟩ := h'.tagAt hid
  rw [heq, heq']
  have hsame : told.Perm told' := htold.trans ((hperm.filterMap _).trans htold'.symm)
  exact Tag.gather_perm hsame fun x hx => h.told hid x (htold.subset hx)

theorem Summed.spaceAt_perm {directory : List String} (hslash : Slashless directory) :
    Option.Rel (fun x y => x = { y with featureIds := x.featureIds } ∧
      x.featureIds.Perm y.featureIds) (s.spaceAt directory) (s'.spaceAt directory) := by
  rw [h.spaceAt hslash, h'.spaceAt hslash]
  exact spaceOf_perm hperm directory

/-- What is registered after one order is registered after the other. -/
theorem Summed.registered {id : String} {e : Entry} (he : s.catalog.find? id = some e) :
    ∃ e', s'.catalog.find? id = some e' := by
  rcases h.known he with htag | hdirectory | ⟨y, hy, hunder, hsome⟩
  · obtain ⟨t, rfl⟩ := Pure.isTag h.orderly.toSorted he htag
    have htold := h.tagAt_perm h' hperm htag
    rw [tagAt_of_find? he] at htold
    generalize hfound : s'.tagAt id = found at htold
    cases htold with
    | some _ =>
        obtain ⟨t', ht', -⟩ := find?_of_tagAt hfound
        exact ⟨_, ht'⟩
  · obtain ⟨n, rfl⟩ := Pure.isDirectory h.orderly.toSorted he hdirectory
    obtain ⟨directory, hslash, rfl⟩ := h.orderly.tree.exists_names he
    have hspace := h.spaceAt_perm h' hperm hslash
    rw [spaceAt_of_find? he] at hspace
    generalize hfound : s'.spaceAt directory = found at hspace
    cases hspace with
    | some _ =>
        obtain ⟨n', hn'⟩ := find?_of_spaceAt hfound
        exact ⟨_, hn'⟩
  · obtain ⟨d, hd⟩ := Option.isSome_iff_exists.mp hsome
    obtain ⟨σ', hcopy'⟩ := h'.copy y (hperm.mem_iff.mp hy)
    obtain ⟨e', he', -⟩ := hcopy'.catalog hunder hd
    exact ⟨e', he'⟩

end

/-! ## Which records stand for each other -/

/-- Parts stand for each other that are copies of one, and else what is registered under one
identifier. -/
def Across (ys : List Lone) (σ σ' : Lone → Pairing) (s s' : Store) : Pairing := fun e e' =>
  (∃ y ∈ ys, ∃ d, (y.left.content d).IsPart ∧ σ y e d ∧ σ' y e' d) ∨
    ∃ id, (IsTag id ∨ IsDirectory id) ∧ s.catalog.find? id = some e ∧ s'.catalog.find? id = some e'

theorem Across.symm {σ σ' : Lone → Pairing} {e e' : Entry} (h : Across ys σ σ' s s' e e') :
    Across ys σ' σ s' s e' e := by
  rcases h with ⟨y, hy, d, hpart, he, he'⟩ | ⟨id, hid, he, he'⟩
  · exact Or.inl ⟨y, hy, d, hpart, he', he⟩
  · exact Or.inr ⟨id, hid, he', he⟩

section

variable {σ σ' : Lone → Pairing} (h : Summed readMes ys s)
variable (h' : Summed readMes ys' s') (hperm : ys.Perm ys')
variable (hσ : ∀ y ∈ ys, Twins (.copy y.file.toString) (σ y) s y.left)
variable (hσ' : ∀ y ∈ ys, Twins (.copy y.file.toString) (σ' y) s' y.left)

theorem Summed.not_isPart_of_shared (h : Summed readMes ys s) {id : String} {e : Entry}
    (hid : IsTag id ∨ IsDirectory id) (he : s.catalog.find? id = some e) :
    ¬ (s.content e).IsPart := by
  rcases hid with htag | hdirectory
  · obtain ⟨t, rfl⟩ := Pure.isTag h.orderly.toSorted he htag
    exact False.elim
  · obtain ⟨n, rfl⟩ := Pure.isDirectory h.orderly.toSorted he hdirectory
    exact False.elim

/-- The children of a directory are the directories in it. -/
theorem Summed.across_children (h : Summed readMes ys s)
    (h' : Summed readMes ys' s') (hperm : ys.Perm ys') {id : String} {n n' : Ref Namespace}
    (hn : s.catalog.find? id = some (.nameSpace n))
    (hn' : s'.catalog.find? id = some (.nameSpace n')) (name : String) :
    Option.Rel (fun a b => Across ys σ σ' s s' (.nameSpace a) (.nameSpace b))
      ((s.get n).children.find? name) ((s'.get n').children.find? name) := by
  have htree := h.orderly.tree
  have htree' := h'.orderly.tree
  have hdirectory := (htree.isDirectory hn).child name
  cases hc : (s.get n).children.find? name with
  | some c =>
      obtain ⟨hname, hplaced⟩ := htree.child hn hc
      obtain ⟨e', he'⟩ := h.registered h' hperm hplaced.find?
      obtain ⟨c', rfl⟩ := Pure.isDirectory h'.orderly.toSorted he' hdirectory
      rw [(htree'.children_iff hn' hname).mpr he']
      exact .some (Or.inr ⟨_, Or.inr hdirectory, hplaced.find?, he'⟩)
  | none =>
      cases hc' : (s'.get n').children.find? name with
      | none => exact .none
      | some c' =>
          obtain ⟨hname, hplaced⟩ := htree'.child hn' hc'
          obtain ⟨e, he⟩ := h'.registered h hperm.symm hplaced.find?
          obtain ⟨c, rfl⟩ := Pure.isDirectory h.orderly.toSorted he hdirectory
          rw [(htree.children_iff hn hname).mpr he] at hc
          cases hc

include hσ hσ'

/-- Of the two registries only the one on the right has to be looked at. -/
theorem across_leftUnique {s₀ : Store} (h : Summed readMes ys s₀)
    (h' : Summed readMes ys' s') : Relator.LeftUnique (Across ys σ σ' s s') := by
  intro e₁ e₂ e' h₁ h₂
  rcases h₁ with ⟨y₁, hy₁, d₁, hpart₁, he₁, he₁'⟩ | ⟨id₁, hid₁, he₁, he₁'⟩ <;>
    rcases h₂ with ⟨y₂, hy₂, d₂, hpart₂, he₂, he₂'⟩ | ⟨id₂, hid₂, he₂, he₂'⟩
  · -- the part tells whose it is
    have hunder : ∀ {y d}, y ∈ ys → (y.left.content d).IsPart → σ' y e' d →
        Under y.file.toString (s'.content e').id := fun hy hpart he =>
      ((hσ' _ hy).content he).under_of_copy (((hσ' _ hy).content he).isPart_iff.mpr hpart)
    have hfile := (h.lone y₁ hy₁).name.featureFile.eq_of_under (h.lone y₂ hy₂).name.featureFile
      (hunder hy₁ hpart₁ he₁') (hunder hy₂ hpart₂ he₂')
    obtain rfl := List.inj_on_of_nodup_map h.nodup hy₁ hy₂ hfile
    obtain rfl := (hσ' y₁ hy₁).biUnique.2 he₁' he₂'
    exact (hσ y₁ hy₁).biUnique.1 he₁ he₂
  · exact absurd (((hσ' y₁ hy₁).content he₁').isPart_iff.mpr hpart₁)
      (h'.not_isPart_of_shared hid₂ he₂')
  · exact absurd (((hσ' y₂ hy₂).content he₂').isPart_iff.mpr hpart₂)
      (h'.not_isPart_of_shared hid₁ he₁')
  · have hlabelled := h'.orderly.labelled
    obtain rfl := (hlabelled he₁').idOf.symm.trans (hlabelled he₂').idOf
    exact Option.some.inj (he₁.symm.trans he₂)

include h h'

theorem across_biUnique : Relator.BiUnique (Across ys σ σ' s s') := by
  refine ⟨across_leftUnique hσ hσ' h h', fun e a b ha hb => ?_⟩
  exact across_leftUnique hσ' hσ h h ha.symm hb.symm

theorem across_has {e e' : Entry} (he : Across ys σ σ' s s' e e') : s.Has e ∧ s'.Has e' := by
  rcases he with ⟨y, hy, d, -, he, he'⟩ | ⟨id, -, he, he'⟩
  · exact ⟨((hσ y hy).has he).1, ((hσ' y hy).has he').1⟩
  · exact ⟨(h.orderly.labelled he).has, (h'.orderly.labelled he').has⟩

omit h' in
/-- Copies of one record stand for each other. -/
theorem across_of_copies {y : Lone} (hy : y ∈ ys) {a b d : Entry} (hkind : a.kind ≠ .nameSpace)
    (ha : σ y a d) (hb : σ' y b d) : Across ys σ σ' s s' a b := by
  have hkind' := (hσ y hy).kind_eq ha
  cases d with
  | feature | scenario | outline | examples | step =>
      refine Or.inl ⟨y, hy, _, ?_, ha, hb⟩
      trivial
  | tag d =>
      have hkind'' := (hσ' y hy).kind_eq hb
      cases a <;> cases b <;> first | cases hkind'; done | cases hkind''; done | skip
      case tag.tag a b =>
        obtain ⟨id, hid, hs, ht⟩ := (hσ y hy).tags ha
        obtain ⟨id', -, hs', ht'⟩ := (hσ' y hy).tags hb
        have hlabelled := (h.lone y hy).sound.orderly.labelled
        obtain rfl := (hlabelled ht).idOf.symm.trans (hlabelled ht').idOf
        exact Or.inr ⟨id, Or.inl hid, hs, hs'⟩
  | nameSpace => exact absurd hkind' hkind
  | definition d =>
      -- a lone build has none
      cases a <;> first | cases hkind'; done | skip
      rename_i a
      have halike : (Content.definition (s.get a)).Alike (.copy y.file.toString) (σ y)
        (.definition (y.left.get d)) := (hσ y hy).content ha
      cases halike with
      | definition _ hlinks => exact hlinks.elim
  | transform d =>
      cases a <;> first | cases hkind'; done | skip
      rename_i a
      have halike : (Content.transform (s.get a)).Alike (.copy y.file.toString) (σ y)
        (.transform (y.left.get d)) := (hσ y hy).content ha
      cases halike with
      | transform _ hlinks => exact hlinks.elim

include hperm

theorem across_content {e e' : Entry} (he : Across ys σ σ' s s' e e') :
    (s.content e).Alike .unordered (Across ys σ σ' s s') (s'.content e') := by
  rcases he with ⟨y, hy, d, hpart, he, he'⟩ | ⟨id, htag | hdirectory, he, he'⟩
  · have halike := (hσ y hy).content he
    refine halike.meet ((hσ' y hy).content he') (halike.isPart_iff.mpr hpart) ?_
    exact fun a b d hkind ha hb => across_of_copies h hσ hσ' hy hkind ha hb
  · obtain ⟨t, rfl⟩ := Pure.isTag h.orderly.toSorted he htag
    obtain ⟨t', rfl⟩ := Pure.isTag h'.orderly.toSorted he' htag
    have htags := h.tagAt_perm h' hperm htag
    rw [tagAt_of_find? he, tagAt_of_find? he'] at htags
    cases htags with
    | some hx => exact .tag hx
  · obtain ⟨n, rfl⟩ := Pure.isDirectory h.orderly.toSorted he hdirectory
    obtain ⟨n', rfl⟩ := Pure.isDirectory h'.orderly.toSorted he' hdirectory
    obtain ⟨directory, hslash, rfl⟩ := h.orderly.tree.exists_names he
    have hspace := h.spaceAt_perm h' hperm hslash
    rw [spaceAt_of_find? he, spaceAt_of_find? he'] at hspace
    cases hspace with
    | some hx =>
        obtain ⟨hsame, hlisted⟩ := hx
        refine .nameSpace ⟨(congrArg Namespace.id hsame :), (congrArg Namespace.name hsame :),
          (congrArg Namespace.parentId hsame :), (congrArg Namespace.description hsame :), hlisted,
          fun name => ?_⟩
        exact h.across_children h' hperm he he' name

theorem across_catalog (id : String) :
    Option.Rel (Across ys σ σ' s s') (s.catalog.find? id) (s'.catalog.find? id) := by
  cases he : s.catalog.find? id with
  | none =>
      cases he' : s'.catalog.find? id with
      | none => exact .none
      | some e' =>
          obtain ⟨e, he₁⟩ := h'.registered h hperm.symm he'
          rw [he] at he₁
          cases he₁
  | some e =>
      obtain ⟨e', he'⟩ := h.registered h' hperm he
      rw [he']
      refine .some ?_
      rcases h.known he with htag | hdirectory | ⟨y, hy, hunder, hsome⟩
      · exact Or.inr ⟨id, Or.inl htag, he, he'⟩
      · exact Or.inr ⟨id, Or.inr hdirectory, he, he'⟩
      · obtain ⟨d, hd⟩ := Option.isSome_iff_exists.mp hsome
        obtain ⟨a, ha, had⟩ := (hσ y hy).catalog hunder hd
        obtain ⟨b, hb, hbd⟩ := (hσ' y hy).catalog hunder hd
        rw [he] at ha
        rw [he'] at hb
        cases ha
        cases hb
        have hbuild := (h.lone y hy)
        exact Or.inl ⟨y, hy, d,
          Pure.isPart hbuild.sound.orderly.toSorted hbuild.name hunder hd, had, hbd⟩

end

/-- **The same documents in another order leave a registry that agrees.** -/
theorem Summed.agree (h : Summed readMes ys s) (h' : Summed readMes ys' s')
    (hperm : ys.Perm ys') : ∃ ρ, Agree .unordered ρ s s' := by
  choose! σ hσ using h.copy
  choose! σ' hσ' using h'.copy
  have hσ'' : ∀ y ∈ ys, Twins (.copy y.file.toString) (σ' y) s' y.left :=
    fun y hy => hσ' y (hperm.mem_iff.mp hy)
  exact ⟨Across ys σ σ' s s', across_biUnique h h' hσ hσ'', across_has h h' hσ hσ'',
    across_content h h' hperm hσ hσ'', across_catalog h h' hperm hσ hσ''⟩

end Batch

end StepTrace
