import StepTrace.Proofs.Build.Features
import StepTrace.Proofs.Build.Namespaces

/-!
# What holds of every registry

Whatever documents have been built, to their end or not, the two orders of the catalog agree,
records are registered under their own identifiers, these fit the kinds of the records, and the
namespaces form a tree (`Sorted`).  Unless something has been rolled back, moreover, every part that
is registered belongs to a registered feature, and every registered feature is there with all its
parts (`Orderly`).

The names of the files that are built are those of a predicate `files`; `linked` says whether
definitions and transforms may be registered as well.
-/

namespace StepTrace.Store

/-- What may be registered under an identifier. -/
def Fits (files : String → Prop) (linked : Prop) (id : String) : Entry → Prop
  | .nameSpace _ => IsDirectory id
  | .feature _ => files id
  | .scenario _ | .outline _ | .examples _ | .step _ =>
    ∃ file, files file ∧ Under file id ∧ id ≠ file
  | .tag _ => IsTag id
  | .definition _ | .transform _ => linked

theorem fits_of_isPart {files : String → Prop} {linked : Prop} {id : String} {e : Entry}
    (hkind : e.kind.IsPart) : Fits files linked id e ↔
      ∃ file, files file ∧ Under file id ∧ id ≠ file := by
  cases e with
  | scenario | outline | examples | step => exact Iff.rfl
  | nameSpace | feature | tag | definition | transform => exact hkind.elim

/-- The catalog is consistent, what is registered fits its identifier, and namespaces form a tree. -/
structure Sorted (files : String → Prop) (linked : Prop) (s : Store) : Prop where
  consistent : s.catalog.Consistent
  labelled : s.Labelled
  fits : ∀ {id e}, s.catalog.find? id = some e → Fits files linked id e
  tree : s.Tree

/-- Moreover every part belongs to a registered feature, and every feature is placed. -/
structure Orderly (files : String → Prop) (linked : Prop) (s : Store) : Prop extends
    Sorted files linked s where
  owned : ∀ {id e}, s.catalog.find? id = some e → e.kind.IsPart →
    ∃ file r, files file ∧ Under file id ∧ s.catalog.find? file = some (.feature r)
  placed : ∀ {id r}, s.catalog.find? id = some (.feature r) → s.FeaturePlaced r id

variable {files : String → Prop} {linked : Prop} {s s' : Store} {file : String}

theorem sorted_empty : Sorted files linked {} where
  consistent := Catalog.consistent_empty
  labelled := nofun
  fits := nofun
  tree := ⟨nofun, nofun, nofun⟩

theorem orderly_empty : Orderly files linked {} :=
  ⟨sorted_empty, nofun, nofun⟩

/-! ## Identifiers of kinds -/

/-- The root is registered as a namespace, if at all, or as something without a description. -/
theorem Sorted.root (h : Sorted files linked s) (hfiles : ∀ file, files file → FeatureFile file)
    {e : Entry} (he : s.catalog.find? rootNamespaceId = some e) :
    e.kind = .nameSpace ∨ s.descriptionOf? e = none := by
  have hroot : IsDirectory rootNamespaceId := Or.inl rfl
  have hpart : ¬ ∃ file, files file ∧ Under file rootNamespaceId ∧ rootNamespaceId ≠ file := by
    rintro ⟨file, hfile, hunder, -⟩
    exact (hfiles file hfile).not_isDirectory hunder hroot
  have hfits := h.fits he
  cases e with
  | nameSpace => exact Or.inl rfl
  | feature r => exact absurd hroot ((hfiles _ hfits).not_isDirectory (.refl _))
  | scenario | outline | examples => exact absurd hfits hpart
  | step | tag | definition | transform => exact Or.inr rfl

/-! ## Namespaces come in -/

theorem Sorted.siteBuilt (h : Sorted files linked s) (hbuilt : Build.SiteBuilt s s') :
    Sorted files linked s' where
  consistent := hbuilt.grows.catalog.consistent h.consistent
  labelled := h.labelled.grows hbuilt.grows
  fits := by
    intro id e he
    rcases hbuilt.grows.catalog.find?_cases he with he | ⟨hdirectory, hkind, -⟩ | ⟨htag, hkind, -⟩
    · exact h.fits he
    · cases e <;> first | exact hdirectory | cases hkind
    · cases e <;> first | exact htag | cases hkind
  tree := hbuilt.tree

theorem Orderly.siteBuilt (h : Orderly files linked s)
    (hfiles : ∀ file, files file → FeatureFile file) (hbuilt : Build.SiteBuilt s s') :
    Orderly files linked s' := by
  have hstay : ∀ {file e}, files file → s.catalog.find? file = some e →
      s'.catalog.find? file = some e := fun hfile he =>
    hbuilt.grows.catalog.find?_eq_some
      (fun _ hnew => (hfiles _ hfile).not_isDirectory (.refl _) hnew.1) he
  have hold : ∀ {id e}, s'.catalog.find? id = some e → e.kind ≠ .nameSpace → e.kind ≠ .tag →
      s.catalog.find? id = some e := by
    intro id e he hspace htag
    rcases hbuilt.grows.catalog.find?_cases he with he | ⟨-, hkind, -⟩ | ⟨-, hkind, -⟩
    · exact he
    · exact absurd hkind hspace
    · exact absurd hkind htag
  refine ⟨h.toSorted.siteBuilt hbuilt, ?_, ?_⟩
  · intro id e he hpart
    have hne : e.kind ≠ .nameSpace ∧ e.kind ≠ .tag := by
      constructor <;> (intro hkind; rw [hkind] at hpart; exact hpart)
    obtain ⟨file, r, hfile, hunder, hr⟩ := h.owned (hold he hne.1 hne.2) hpart
    exact ⟨file, r, hfile, hunder, hstay hfile hr⟩
  · intro id r hr
    have hr' := hold hr nofun nofun
    have hfile : FeatureFile id := hfiles _ (h.fits hr')
    refine (h.placed hr').grows hbuilt.grows ?_ ?_ nofun
    · exact fun id' e hunder hnew => hfile.not_isDirectory hunder hnew.1
    · intro e hpart hkind
      rw [hkind] at hpart
      exact hpart

/-! ## Documents come in -/

/-- The region of a document holds neither namespaces nor their identifiers. -/
theorem documentOf_not_directory (hfile : FeatureFile file) {id : String} {e : Entry}
    (h : DocumentOf file id e) : ¬ IsDirectory id ∧ e.kind ≠ .nameSpace := by
  rcases h with ⟨rfl, hkind⟩ | ⟨⟨hunder, hpart⟩, -⟩
  · exact ⟨hfile.not_isDirectory (.refl _), by rw [hkind]; exact nofun⟩
  · refine ⟨hfile.not_isDirectory hunder, fun hkind => ?_⟩
    rw [hkind] at hpart
    exact hpart

/-- The region of a document lies under the name of its file. -/
theorem documentOf_under {id : String} {e : Entry} (h : DocumentOf file id e) : Under file id := by
  rcases h with ⟨rfl, -⟩ | h
  · exact .refl _
  · exact h.1.1

theorem Sorted.documentLeft (h : Sorted files linked s) (hfiles : ∀ file, files file → FeatureFile file)
    (hfile : files file) (hleft : Build.DocumentLeft file s s') : Sorted files linked s' := by
  rcases hleft with rfl | ⟨r, hbuilt⟩
  · exact h
  refine ⟨hbuilt.grows.catalog.consistent h.consistent, h.labelled.grows hbuilt.grows, ?_, ?_⟩
  · intro id e he
    rcases hbuilt.grows.catalog.find?_cases he with he | hnew | ⟨htag, hkind, -⟩
    · exact h.fits he
    · rcases hnew with ⟨rfl, hkind⟩ | ⟨⟨hunder, hpart⟩, hne⟩
      · cases e <;> first | exact hfile | cases hkind
      · exact (fits_of_isPart hpart).mpr ⟨file, hfile, hunder, hne⟩
    · cases e <;> first | exact htag | cases hkind
  · refine h.tree.grows h.labelled hbuilt.grows
      (fun _ _ => documentOf_not_directory (hfiles _ hfile)) fun n hn => ?_
    obtain ⟨ids, hget⟩ := hbuilt.grows.get_nameSpace hn id
    rw [hget]
    rfl

theorem Orderly.documentLeft (h : Orderly files linked s)
    (hfiles : ∀ file, files file → FeatureFile file) (hfile : files file)
    (hleft : Build.DocumentLeft file s s') : Orderly files linked s' := by
  refine ⟨h.toSorted.documentLeft hfiles hfile hleft, ?_, ?_⟩
  all_goals rcases hleft with rfl | ⟨r, hbuilt⟩
  · exact h.owned
  · intro id e he hpart
    rcases hbuilt.grows.catalog.find?_cases he with he | hnew | ⟨-, hkind, -⟩
    · obtain ⟨file', r', hfile', hunder, hr'⟩ := h.owned he hpart
      by_cases hsame : file' = file
      · subst hsame
        exact ⟨file', r, hfile', hunder, hbuilt.placed.placed.find?⟩
      · refine ⟨file', r', hfile', hunder, hbuilt.grows.catalog.find?_eq_some ?_ hr'⟩
        intro e hnew
        exact hsame ((hfiles _ hfile').eq_of_under (hfiles _ hfile) (.refl _)
          (documentOf_under hnew))
    · exact ⟨file, r, hfile, documentOf_under hnew, hbuilt.placed.placed.find?⟩
    · rw [hkind] at hpart
      exact hpart.elim
  · exact h.placed
  · intro id r' hr'
    by_cases hsame : id = file
    · subst hsame
      rw [hbuilt.placed.placed.find?] at hr'
      cases hr'
      exact hbuilt.placed
    · rcases hbuilt.grows.catalog.find?_cases hr' with hold | hnew | ⟨-, hkind, -⟩
      · refine (h.placed hold).grows hbuilt.grows ?_ (fun _ _ => False.elim) False.elim
        intro id' e hunder hnew
        exact hsame ((hfiles _ (h.fits hold)).eq_of_under (hfiles _ hfile) hunder
          (documentOf_under hnew))
      · rcases hnew with ⟨heq, -⟩ | ⟨⟨-, hpart⟩, -⟩
        · exact absurd heq hsame
        · exact hpart.elim
      · cases hkind

end StepTrace.Store
