import StepTrace.Proofs.Batch.Alone
import StepTrace.Proofs.Registry.Seats

/-!
# Registries whose namespaces fit their directories

A registered namespace has the name and the parent that its directory gives it, and lists, each once,
the registered features that name it; a registered feature is that of a file that was tried, and lies
in the directory of the file (`Arranged`).

This is kept by all that a batch or a session does to the registry: by finding a namespace, by the
build of a document, whether it comes to its end, gives up on the way or is undone
(`Arranged.buildOne`).  Besides, a namespace that is registered stays registered.
-/

namespace StepTrace

open Store

namespace Store

/-! ## What namespaces and features tell -/

/-- The namespace has the name and parent of the directory, and lists, each once, features that name
it. -/
structure Tells (s : Store) (names : List String) (x : Namespace) : Prop where
  name : x.name = (Namespace.fresh names).name
  parentId : x.parentId = (Namespace.fresh names).parentId
  nodup : x.featureIds.Nodup
  listed : ∀ id ∈ x.featureIds, ∃ r, s.catalog.find? id = some (.feature r) ∧
    (s.get r).namespaceId = directoryId names

/-- The feature is that of one of the files, and is listed in the directory of that file. -/
def Lies (s : Store) (files : List Path) (id : String) (r : Ref Feature) : Prop :=
  ∃ p ∈ files, PlainPath p ∧ id = p.toString ∧ (s.get r).namespaceId = directoryId p.parent.names ∧
    ∃ x, s.spaceAt p.parent.names = some x ∧ id ∈ x.featureIds

/-- The registry is orderly, its namespaces fit their directories, and its features lie in those of
the files. -/
structure Arranged (files : List Path) (s : Store) : Prop where
  orderly : Orderly PlainName False s
  space : ∀ {names x}, Slashless names → s.spaceAt names = some x → s.Tells names x
  feature : ∀ {id r}, s.catalog.find? id = some (.feature r) → s.Lies files id r

/-- Namespaces that are registered stay registered. -/
def KeepsSpaces (s s' : Store) : Prop :=
  ∀ ⦃id n⦄, s.catalog.find? id = some (.nameSpace n) → s'.catalog.find? id = some (.nameSpace n)

variable {s s' s'' : Store} {files files' : List Path} {names : List String} {x : Namespace}

theorem KeepsSpaces.refl (s : Store) : KeepsSpaces s s :=
  fun _ _ => id

theorem KeepsSpaces.trans (h : KeepsSpaces s s') (h' : KeepsSpaces s' s'') : KeepsSpaces s s'' :=
  fun _ _ hn => h' (h hn)

theorem tells_fresh (s : Store) (names : List String) : s.Tells names (.fresh names) :=
  ⟨rfl, rfl, List.nodup_nil, nofun⟩

/-- Features that stay where they are may still be listed. -/
theorem Tells.of_kept (h : s.Tells names x) (hfeatures : ∀ {id r},
    s.catalog.find? id = some (.feature r) → s'.catalog.find? id = some (.feature r) ∧
      (s'.get r).namespaceId = (s.get r).namespaceId) : s'.Tells names x where
  name := h.name
  parentId := h.parentId
  nodup := h.nodup
  listed id hid := by
    obtain ⟨r, hr, hspace⟩ := h.listed id hid
    obtain ⟨hr', hsame⟩ := hfeatures hr
    exact ⟨r, hr', hsame.trans hspace⟩

theorem arranged_empty : Arranged [] {} :=
  ⟨orderly_empty, nofun, nofun⟩

namespace Arranged

variable (h : Arranged files s)
include h

theorem mono (hsub : files ⊆ files') : Arranged files' s := by
  refine ⟨h.orderly, h.space, fun hr => ?_⟩
  obtain ⟨p, hp, hlies⟩ := h.feature hr
  exact ⟨p, hsub hp, hlies⟩

theorem featureFile {id : String} {r : Ref Feature}
    (hr : s.catalog.find? id = some (.feature r)) : FeatureFile id :=
  PlainName.featureFile (h.orderly.fits hr)

/-- A file that was not tried has no feature. -/
theorem not_registered {file : Path} (hnew : ∀ p ∈ files, p.toString ≠ file.toString)
    (r : Ref Feature) : s.catalog.find? file.toString ≠ some (.feature r) := by
  intro hr
  obtain ⟨p, hp, -, heq, -⟩ := h.feature hr
  exact hnew p hp heq.symm

/-! ## Finding a namespace -/

theorem lodged {file : Path} {text : String} {n : Ref Namespace}
    (hlodged : Build.Lodged file text n s s') : Arranged files s' := by
  have hfeatures : ∀ {id r}, s.catalog.find? id = some (.feature r) →
      s'.catalog.find? id = some (.feature r) ∧
        (s'.get r).namespaceId = (s.get r).namespaceId := by
    intro id r hr
    have hsame : s'.get r = s.get r :=
      get_eq_of_content_eq (hlodged.others (h.orderly.labelled hr).has nofun)
    refine ⟨hlodged.built.grows.catalog.find?_eq_some (fun _ hnew => ?_) hr, by rw [hsame]⟩
    exact (h.featureFile hr).not_isDirectory (.refl _) hnew.1
  refine ⟨h.orderly.siteBuilt (fun _ => PlainName.featureFile) hlodged.built,
    fun {names x} hnames hx => ?_, fun {id r} hr => ?_⟩
  · obtain ⟨text', rfl⟩ := hlodged.space_eq hnames hx
    have hold : s.Tells names ((s.spaceAt names).getD (.fresh names)) := by
      cases hold : s.spaceAt names with
      | none => exact tells_fresh s names
      | some y => exact h.space hnames hold
    obtain ⟨hname, hparent, hnodup, hlisted⟩ := hold.of_kept hfeatures
    exact ⟨hname, hparent, hnodup, hlisted⟩
  · have hold : s.catalog.find? id = some (.feature r) := by
      rcases hlodged.new hr with hold | ⟨m, hm⟩
      · exact hold
      · cases hm
    obtain ⟨p, hp, hplain, rfl, hspace, x, hx, hlisted⟩ := h.feature hold
    obtain ⟨text', hx'⟩ := hlodged.space_kept hplain.proper.slashless hx
    exact ⟨p, hp, hplain, rfl, (hfeatures hold).2.trans hspace, _, hx', hlisted⟩

end Arranged

/-! ## Documents -/

section

variable {file : Path} {n : Ref Namespace} {r : Ref Feature}

/-- The directories are registered as before. -/
theorem find?_directory (hfile : PlainPath file)
    (hbuilt : Build.DocumentBuilt file.toString r s s') {id : String} (hid : IsDirectory id) :
    s'.catalog.find? id = s.catalog.find? id := by
  have hout : ∀ e, ¬ DocumentOf file.toString id e := fun _ hin =>
    (documentOf_not_directory hfile.featureFile hin).1 hid
  cases hold : s.catalog.find? id with
  | some e => exact hbuilt.grows.catalog.find?_eq_some hout hold
  | none =>
      rw [Option.eq_none_iff_forall_ne_some]
      intro e he
      rcases hbuilt.grows.catalog.find?_cases he with hsome | hin | ⟨htag, -⟩
      · rw [hold] at hsome
        cases hsome
      · exact hout e hin
      · exact hid.not_isTag htag

/-- Only the directory of the file has changed, which lists the file. -/
theorem Seated.spaceAt (hseated : Seated n file.toString s s') (hfile : PlainPath file)
    (hlabelled : s.Labelled) (hn : s.Placed (.nameSpace n) (directoryId file.parent.names))
    (hbuilt : Build.DocumentBuilt file.toString r s s') (hnames : Slashless names) :
    s'.spaceAt names = (s.spaceAt names).map fun x => { x with
      featureIds := if names = file.parent.names then joinName x.featureIds file.toString
        else x.featureIds } := by
  unfold Store.spaceAt
  rw [find?_directory hfile hbuilt (isDirectory_directoryId names)]
  split
  · rename_i m hm
    by_cases heq : names = file.parent.names
    · rw [heq, hn.find?] at hm
      cases hm
      rw [hseated.home, Option.map_some, if_pos heq]
      rfl
    · have hne : m ≠ n := by
        rintro rfl
        exact heq (directoryId_injective hnames hfile.proper.slashless
          ((hlabelled hm).idOf.symm.trans hn.idOf))
      rw [hseated.other (hlabelled hm).has hne, Option.map_some, if_neg heq]
      rfl
  · rfl

theorem nodup_joinName {ids : List String} (h : ids.Nodup) (id : String) :
    (joinName ids id).Nodup := by
  unfold joinName
  split
  · exact h
  · rename_i hnew
    exact List.nodup_append.mpr ⟨h, List.nodup_singleton id, fun other hother last hlast heq =>
      hnew (List.mem_singleton.mp hlast ▸ heq ▸ hother)⟩

/-- **A document that has been begun lies in the directory of its file.** -/
theorem Arranged.document (h : Arranged files s) (hfile : PlainPath file)
    (hnew : ∀ p ∈ files, p.toString ≠ file.toString)
    (hn : s.Placed (.nameSpace n) (directoryId file.parent.names))
    (hbuilt : Build.DocumentBuilt file.toString r s s') (hseated : Seated n file.toString s s') :
    Arranged (file :: files) s' := by
  have hr : s'.catalog.find? file.toString = some (.feature r) := hbuilt.placed.placed.find?
  have hspace : (s'.get r).namespaceId = directoryId file.parent.names :=
    (hseated.new hbuilt.isNew hbuilt.placed.placed.has).trans hn.idOf
  have hspaces : ∀ {names}, Slashless names → s'.spaceAt names = _ := fun hnames =>
    hseated.spaceAt hfile h.orderly.labelled hn hbuilt hnames
  -- the features of other files are not touched
  have hkept : ∀ {id r'}, s.catalog.find? id = some (.feature r') →
      s'.catalog.find? id = some (.feature r') ∧
        (s'.get r').namespaceId = (s.get r').namespaceId := by
    intro id r' hr'
    refine ⟨hbuilt.grows.catalog.find?_eq_some (fun _ hin => ?_) hr',
      hseated.kept (h.orderly.labelled hr').has⟩
    have hsame := (h.featureFile hr').eq_of_under hfile.featureFile (.refl _) (documentOf_under hin)
    exact h.not_registered hnew r' (hsame ▸ hr')
  refine ⟨h.orderly.documentLeft (fun _ => PlainName.featureFile) ⟨_, hfile, rfl⟩
    (Or.inr ⟨r, hbuilt⟩), fun {names x} hnames hx => ?_, fun {id r'} hr' => ?_⟩
  · rw [hspaces hnames] at hx
    obtain ⟨y, hy, rfl⟩ := Option.map_eq_some_iff.mp hx
    obtain ⟨hname, hparent, hnodup, hlisted⟩ := (h.space hnames hy).of_kept hkept
    by_cases heq : names = file.parent.names
    · simp only [if_pos heq]
      refine ⟨hname, hparent, nodup_joinName hnodup _, fun id hid => ?_⟩
      rcases mem_joinName.mp hid with hold | rfl
      · exact hlisted id hold
      · exact ⟨r, hr, heq ▸ hspace⟩
    · simp only [if_neg heq]
      exact ⟨hname, hparent, hnodup, hlisted⟩
  · rcases hbuilt.grows.catalog.find?_cases hr' with hold | hin | ⟨-, hkind, -⟩
    · obtain ⟨p, hp, hplain, rfl, hspace', x, hx, hlisted⟩ := h.feature hold
      have hx' := hspaces hplain.proper.slashless
      rw [hx] at hx'
      refine ⟨p, List.mem_cons_of_mem _ hp, hplain, rfl, (hkept hold).2.trans hspace', _, hx', ?_⟩
      by_cases heq : p.parent.names = file.parent.names
      · simp only [if_pos heq]
        exact mem_joinName.mpr (Or.inl hlisted)
      · simp only [if_neg heq]
        exact hlisted
    · rcases hin with ⟨rfl, -⟩ | ⟨⟨-, hpart⟩, -⟩
      · rw [hr] at hr'
        cases hr'
        have hx' := hspaces hfile.proper.slashless
        rw [spaceAt_of_find? hn.find?, Option.map_some, if_pos rfl] at hx'
        exact ⟨file, List.mem_cons_self .., hfile, rfl, hspace, _, hx',
          mem_joinName.mpr (Or.inr rfl)⟩
      · exact hpart.elim
    · cases hkind

end

/-- A registry that is restored is arranged as it was. -/
theorem Arranged.restored (h : Arranged files s) (hback : Restored s s') (hpure : Pure s') :
    Arranged files s' := by
  have hspaces (names : List String) : s'.spaceAt names = s.spaceAt names := by
    refine spaceAt_congr (hback.find? _) fun m hm => congrArg Namespace.childless ?_
    exact get_eq_of_content_eq (hback.registered hm)
  have hfeature : ∀ {id r}, s.catalog.find? id = some (.feature r) → s'.get r = s.get r :=
    fun hr => get_eq_of_content_eq (hback.registered hr)
  refine ⟨hback.orderly h.orderly hpure, fun {names x} hnames hx => ?_, fun {id r} hr => ?_⟩
  · rw [hspaces] at hx
    exact (h.space hnames hx).of_kept fun hr => ⟨by rwa [hback.find?], by rw [hfeature hr]⟩
  · rw [hback.find?] at hr
    obtain ⟨p, hp, hplain, rfl, hspace, hlisted⟩ := h.feature hr
    refine ⟨p, hp, hplain, rfl, by rw [hfeature hr, hspace], ?_⟩
    rwa [hspaces]

theorem Restored.keepsSpaces (h : Restored s s') : KeepsSpaces s s' := by
  intro id n hn
  rwa [h.find?]

end Store

namespace Batch

variable {files : List Path} {file : Path} {s : Store} {w : Work}

/-! ## Builds -/

/-- The namespace of a file is found in an arranged registry, unless the read-me file is in the
way. -/
theorem namespaceOf_arranged (h : Arranged files s) {file : Path} (hfile : file.Proper)
    (readMe : ReadMe) :
    ∃ n s', s'.Placed (.nameSpace n) (directoryId file.parent.names) ∧ Arranged files s' ∧
      KeepsSpaces s s' ∧ ((Build.namespaceOf file readMe).run s = (.ok (.nameSpace n), s') ∨
        ∃ fault, readMe = some (.error fault) ∧
          (Build.namespaceOf file readMe).run s = (.error fault, s')) := by
  have hroot : ∀ e, s.catalog.find? rootNamespaceId = some e → e.kind = .nameSpace := by
    intro e he
    obtain ⟨m, rfl⟩ := Pure.isDirectory h.orderly.toSorted he (Or.inl rfl)
    rfl
  obtain ⟨n, text, s', hlodged, hrun⟩ := Build.namespaceOf_left h.orderly.tree h.orderly.labelled
    hroot hfile.slashless readMe
  exact ⟨n, s', hlodged.placed, h.lodged hlodged,
    fun _ _ hn => hlodged.built.find?_nameSpace hn, hrun⟩

/-- **The build of a file that was not tried leaves the registry arranged**, however it ends. -/
theorem feature_arranged (h : Arranged files s) (hfile : PlainPath file)
    (hnew : ∀ p ∈ files, p.toString ≠ file.toString) (content : Value) (excluded : List String)
    (readMe : ReadMe) :
    Arranged (file :: files) ((Build.feature file content excluded readMe).run s).2 ∧
      KeepsSpaces s ((Build.feature file content excluded readMe).run s).2 := by
  have hsub : files ⊆ file :: files := List.subset_cons_self file files
  obtain ⟨n, s₁, hn, h₁, hkeeps, hrun⟩ := namespaceOf_arranged h hfile.proper readMe
  rw [feature_eq]
  rcases hrun with hrun | ⟨fault, -, hrun⟩
  · rw [Action.run_bind_ok hrun]
    set site : Site := ⟨file.toString, excluded.map stripSigil, .nameSpace n⟩
    have hleft := (Build.document_built s₁ site content).1
    set s' := ((Build.document site content).run s₁).2
    have hseats : s' = s₁ ∨ Seated n file.toString s₁ s' :=
      (Build.document_seats hn.has (excluded.map stripSigil) content).1
    rcases hleft with hsame | ⟨r, hbuilt⟩
    · rw [hsame]
      exact ⟨h₁.mono hsub, hkeeps⟩
    rcases hseats with hsame | hseated
    · rw [hsame]
      exact ⟨h₁.mono hsub, hkeeps⟩
    refine ⟨h₁.document hfile hnew hn hbuilt hseated, hkeeps.trans fun id m hm => ?_⟩
    rwa [find?_directory hfile hbuilt (h₁.orderly.tree.isDirectory hm)]
  · rw [Action.run_bind_error hrun]
    exact ⟨h₁.mono hsub, hkeeps⟩

/-- **One document of a batch leaves the registry arranged**, whether it is built, passed over or
undone, and also if it ends the batch. -/
theorem buildOne_arranged (h : Arranged files w.store) (hfile : PlainPath file)
    (hnew : ∀ p ∈ files, p.toString ≠ file.toString) (tree : FileTree) (settings : Settings)
    (path : Path) (content : Value) :
    Arranged (file :: files) ((buildOne tree settings file path content).run w).2.store ∧
      KeepsSpaces w.store ((buildOne tree settings file path content).run w).2.store := by
  have hsub : files ⊆ file :: files := List.subset_cons_self file files
  have hbuilt : Arranged (file :: files)
        ((buildDocument tree settings file path content).run w.store).2 ∧
      KeepsSpaces w.store ((buildDocument tree settings file path content).run w.store).2 := by
    rcases excludedBy_cases settings with hexcluded | ⟨fault, hexcluded⟩
    · rw [buildDocument_eq hexcluded]
      exact feature_arranged h hfile hnew content _ _
    · rw [buildDocument_run_error hexcluded]
      exact ⟨h.mono hsub, .refl _⟩
  rcases hbuild : (buildDocument tree settings file path content).run w.store with
    ⟨fault | feature, s₁⟩
  · by_cases hlocal : isLocal fault
    · have hfree := h.orderly.isNew ⟨_, hfile, rfl⟩ (h.not_registered hnew)
      obtain ⟨w', hrun, hback, hpure⟩ := buildOne_undone h.orderly hfile hfree hbuild hlocal
      rw [hrun]
      exact ⟨(h.restored hback hpure).mono hsub, hback.keepsSpaces⟩
    · rw [hbuild] at hbuilt
      rw [buildOne_run, hbuild]
      dsimp only
      rw [if_neg hlocal]
      exact hbuilt
  · rw [hbuild] at hbuilt
    rw [buildOne_run, hbuild]
    exact hbuilt

end Batch

end StepTrace
