import StepTrace.Proofs.Path
import StepTrace.Proofs.Registry.Invariant

/-!
# Building one file

The build of a file first finds its namespace and then builds the document.  Whether it comes to its
end or not, the registry stays sorted and orderly (`feature_sorted`, `feature_orderly`); a build that
gives a feature leaves it placed, counted, and listed by its namespace (`FeatureDone`).
-/

namespace StepTrace

/-- The names of the files of feature paths. -/
def PathName (file : String) : Prop :=
  ∃ p, FeaturePath p ∧ p.toString = file

/-- The names of the files of plain paths. -/
def PlainName (file : String) : Prop :=
  ∃ p, PlainPath p ∧ p.toString = file

theorem PathName.featureFile {file : String} (h : PathName file) : FeatureFile file := by
  obtain ⟨p, hp, rfl⟩ := h
  exact hp.featureFile

theorem PlainName.featureFile {file : String} (h : PlainName file) : FeatureFile file := by
  obtain ⟨p, hp, rfl⟩ := h
  exact hp.featureFile

theorem PlainName.not_isTag {file : String} (h : PlainName file) : ¬ IsTag file := by
  obtain ⟨p, hp, rfl⟩ := h
  exact hp.not_isTag

/-- No tag has its identifier under the name of a plain file. -/
theorem PlainName.no_tag_under {file id : String} (h : PlainName file) (hunder : Under file id) :
    ¬ IsTag id :=
  h.featureFile.not_isTag h.not_isTag hunder

namespace Store

/-- The feature names the namespace that lists it. -/
def Housed (s : Store) (r : Ref Feature) : Prop :=
  ∃ n, s.catalog.find? (s.get r).namespaceId = some (.nameSpace n) ∧
    (s.get r).id ∈ (s.get n).featureIds

end Store

namespace Build

open Store

/-- What is left of the build of a file in any case. -/
def FeatureLeft (file : String) (s s' : Store) : Prop :=
  ∃ s₁, SiteBuilt s s₁ ∧ DocumentLeft file s₁ s'

/-- What a build has done that gave a feature. -/
structure FeatureDone (file : Path) (r : Ref Feature) (s s' : Store) : Prop where
  built : ∃ s₁, SiteBuilt s s₁ ∧ DocumentBuilt file.toString r s₁ s'
  counted : Counted s' r
  namespaceId : (s'.get r).namespaceId = directoryId file.parent.names
  housed : s'.Housed r

theorem FeatureDone.isNew {file : Path} {r : Ref Feature} {s s' : Store}
    (h : FeatureDone file r s s') : ¬ s.Has (.feature r) := by
  obtain ⟨s₁, hsite, hbuilt⟩ := h.built
  exact fun hhas => hbuilt.isNew (hsite.grows.has hhas)

theorem FeatureDone.placed {file : Path} {r : Ref Feature} {s s' : Store}
    (h : FeatureDone file r s s') : s'.FeaturePlaced r file.toString := by
  obtain ⟨s₁, -, hbuilt⟩ := h.built
  exact hbuilt.placed

variable {files : String → Prop} {linked : Prop} {s s' : Store}

/-- **The build of a file registers namespaces and one feature with its parts, or gives up on the
way.** -/
theorem feature_built (h : Sorted files linked s) (hfiles : ∀ file, files file → FeatureFile file)
    {file : Path} (hfile : FeaturePath file) (content : Value) (excluded : List String)
    (readMe : ReadMe) :
    Ensures (feature file content excluded readMe) s (FeatureLeft file.toString s)
      fun result s' => match result with
        | none => SiteBuilt s s'
        | some r => FeatureDone file r s s' ∧ ∃ s₀ s₁ s₂, SiteBuilt s s₀ ∧
            Assembled r content.backgrounds s₀ s₁ s₂ s' := by
  unfold feature
  refine .bind_of (site_built h.tree h.labelled (fun _ => h.root hfiles) hfile.proper.names excluded
    readMe) (fun s₁ hbuilt => ⟨s₁, hbuilt, Or.inl rfl⟩) ?_
  rintro x s₁ hsite ⟨hname, -, n, hspace, hn⟩
  refine (document_built s₁ x content).weaken (fun s' hleft => ⟨s₁, hsite, hname ▸ hleft⟩) ?_
  intro result s' _ hdone
  cases result with
  | none =>
      rw [show s' = s₁ from hdone]
      exact hsite
  | some r =>
      obtain ⟨hbuilt, hcounted, hid, ⟨n', hspace', hlisted⟩, s₂, s₃, hassembled⟩ := hdone
      rw [hspace] at hspace'
      cases hspace'
      rw [hname] at hbuilt hlisted
      have hid' : (s'.get r).namespaceId = directoryId file.parent.names := by
        rw [hid, hspace]
        exact hn.idOf
      refine ⟨⟨⟨s₁, hsite, hbuilt⟩, hcounted, hid', n, ?_, ?_⟩, s₁, s₂, s₃, hsite, hassembled⟩
      · rw [hid']
        refine hbuilt.grows.catalog.find?_eq_some (fun e hnew => ?_) hn.find?
        exact (documentOf_not_directory hfile.featureFile hnew).1 (hsite.tree.isDirectory hn.find?)
      · rw [show (s'.get r).id = file.toString from hbuilt.placed.placed.idOf]
        exact hlisted hn.has

end Build

namespace Store

variable {files : String → Prop} {linked : Prop} {s s' : Store}

theorem Sorted.featureLeft (h : Sorted files linked s)
    (hfiles : ∀ file, files file → FeatureFile file) {file : String} (hfile : files file)
    (hleft : Build.FeatureLeft file s s') : Sorted files linked s' := by
  obtain ⟨s₁, hsite, hdocument⟩ := hleft
  exact (h.siteBuilt hsite).documentLeft hfiles hfile hdocument

theorem Orderly.featureLeft (h : Orderly files linked s)
    (hfiles : ∀ file, files file → FeatureFile file) {file : String} (hfile : files file)
    (hleft : Build.FeatureLeft file s s') : Orderly files linked s' := by
  obtain ⟨s₁, hsite, hdocument⟩ := hleft
  exact (h.siteBuilt hfiles hsite).documentLeft hfiles hfile hdocument

end Store

/-- A call that builds the document of a file. -/
structure BuildCall where
  file : Path
  content : Value
  excluded : List String
  readMe : ReadMe

/-- The registry that the call leaves, whether it comes to its end or not. -/
def BuildCall.apply (call : BuildCall) (s : Store) : Store :=
  ((Build.feature call.file call.content call.excluded call.readMe).run s).2

theorem BuildCall.apply_left (call : BuildCall) {s : Store} {files : String → Prop} {linked : Prop}
    (h : Store.Sorted files linked s) (hfiles : ∀ file, files file → FeatureFile file)
    (hfile : FeaturePath call.file) : Build.FeatureLeft call.file.toString s (call.apply s) :=
  (Build.feature_built h hfiles hfile call.content call.excluded call.readMe).1

end StepTrace
