import StepTrace.Proofs.Batch.Order
import StepTrace.Proofs.Tags.Documents

/-!
# Files that are built again

A later document of a file is built on top of the earlier one.  What it leaves is told from its lone
build (`Leaves`): its parts take the place of those under the same identifiers, and of the earlier
document all else stays, what tags were told of it included.

So the registry is the one with the later document in the place of the earlier one (`Summed.rebuilt`)
only if the earlier document told tags nothing and registered nothing that the later one does not; and
if the two agree up to order it was so (`Summed.replaced_of_agree`).  A document that is refused is
undone as long as its feature has not come in; after that the feature that was registered is not found
again (`buildOne_refused_again`).
-/

namespace StepTrace

open Store

/-! ## The places of a tag -/

namespace Tag

/-- The places where the tag is declared, if there is one. -/
def places (x : Option Tag) : List TagSite :=
  (x.map Tag.sites).getD []

theorem places_combine (old new : Option Tag) :
    places (combine old new) = places old ++ places new := by
  cases new with
  | none => exact (List.append_nil _).symm
  | some y => cases old <;> rfl

theorem places_gather (told : List Tag) : places (gather told) = told.flatMap Tag.sites := by
  cases told <;> rfl

end Tag

/-- Registries that agree have the same tags, up to order. -/
theorem Agree.tagAt {ρ : Pairing} {s s' : Store} (h : Agree .unordered ρ s s') (id : String) :
    Option.Rel Tag.Alike (s.tagAt id) (s'.tagAt id) := by
  have hrel := h.find?_rel id
  unfold Store.tagAt
  generalize s.catalog.find? id = found, s'.catalog.find? id = found' at hrel
  cases hrel with
  | none => exact .none
  | @some e e' he =>
      have hkind := h.kind_eq he
      cases e <;> cases e' <;> first | exact .none | cases hkind; done | skip
      case tag.tag a b =>
        have halike : (Content.tag (s.get a)).Alike .unordered ρ (.tag (s'.get b)) := h.content he
        cases halike with
        | tag hx => exact .some hx

namespace Batch

variable {readMes : List String → ReadMe} {ys before after : List Lone} {y old new : Lone}
variable {s s' s'' t : Store}

/-! ## What lone builds leave -/

namespace Lone.IsBuild

variable (h : y.IsBuild readMes)
include h

/-- A lone build that is not passed over has told every tag a place. -/
theorem sited {id : String} {x : Tag} (hx : y.left.tagAt id = some x) :
    y.result.isSome ∧ x.sites ≠ [] := by
  obtain ⟨content, excluded, hrun⟩ := h.run
  obtain ⟨a, ha, rfl⟩ := find?_of_tagAt hx
  have hempty : Pure {} := orderly_empty.toSorted
  refine (Build.feature_sited hempty (fun _ => PlainName.featureFile) h.plain hrun ha).resolve_left ?_
  exact nofun

/-- A lone build registers the feature that it returns. -/
theorem registered {r : Ref Feature} (hresult : y.result = some r) :
    y.left.catalog.find? y.file.toString = some (.feature r) := by
  obtain ⟨content, excluded, hrun⟩ := h.run
  have hout : Outcome ⟨y.file, content, excluded, readMes y.directory⟩ {} y.result y.left :=
    .of_run hrun
  exact ((sound_empty.outcome h.plain List.not_mem_nil hout).2.2 _ r).mpr (Or.inr ⟨rfl, hresult⟩)

/-- A lone build that is passed over leaves directories. -/
theorem free (hresult : y.result = none) {id : String} (hunder : Under y.file.toString id) :
    y.left.catalog.find? id = none := by
  obtain ⟨content, excluded, hrun⟩ := h.run
  have hempty : Pure {} := orderly_empty.toSorted
  have hdone := (Build.feature_built hempty (fun _ => PlainName.featureFile) h.plain.toFeaturePath
    content excluded (readMes y.directory)).2
  rw [hrun, hresult] at hdone
  rw [Option.eq_none_iff_forall_ne_some]
  intro e he
  have hname := h.name
  rcases (hdone none rfl).grows.catalog.find?_cases he with hold | hnew | ⟨htag, -⟩
  · cases hold
  · exact hname.featureFile.not_isDirectory hunder hnew.1
  · exact hname.no_tag_under hunder htag

end Lone.IsBuild

/-! ## Directories -/

theorem mem_builtIn (hy : y ∈ ys) (hresult : y.result.isSome) :
    y.file.toString ∈ builtIn ys y.directory :=
  List.mem_map_of_mem (List.mem_filter.mpr ⟨hy, by simp [hresult]⟩)

/-- Which namespaces there are does not depend on what the documents hold. -/
theorem spaceOf_replaced (hfile : new.file = old.file)
    (hresult : new.result.isSome = old.result.isSome) (names : List String) :
    spaceOf readMes (before ++ new :: after) names =
      spaceOf readMes (before ++ old :: after) names := by
  have hdirectory : new.directory = old.directory := by rw [Lone.directory, hfile, Lone.directory]
  have hlisted : builtIn (before ++ new :: after) names = builtIn (before ++ old :: after) names := by
    simp only [builtIn, List.filter_append, List.filter_cons, hresult, hdirectory]
    split <;> simp [hfile]
  have hopen : (∃ y ∈ before ++ new :: after, names <+: y.directory) ↔
      ∃ y ∈ before ++ old :: after, names <+: y.directory := by
    simp [or_and_right, exists_or, hdirectory]
  have hdirectories : (before ++ new :: after).map Lone.directory =
      (before ++ old :: after).map Lone.directory := by simp [hdirectory]
  unfold spaceOf
  rw [hlisted, hdirectories]
  simp only [hopen]

/-- A file that was built leaves its directories as they are when it is built again. -/
theorem Summed.spaceAt_again (h : Summed readMes ys s) (hy : y ∈ ys) {built : Bool}
    (hleaves : Leaves y.file (descriptionOf (readMes y.directory)) built t s s')
    (hbuilt : built → y.result.isSome) {names : List String} (hnames : Slashless names) :
    s'.spaceAt names = s.spaceAt names := by
  have hspace := hleaves.spaceAt hnames
  change s'.spaceAt names = if names = y.directory then _ else if names <+: y.directory then _ else _
    at hspace
  rw [hspace, h.spaceAt hnames]
  have hopen : ∀ {names}, names <+: y.directory → ∃ z ∈ ys, names <+: z.directory :=
    fun hbegins => ⟨y, hy, hbegins⟩
  split
  · rename_i heq
    subst heq
    have hlisted : (if built then [y.file.toString] else []) ⊆ builtIn ys y.directory := by
      intro id hid
      split at hid
      · rename_i hbuilt'
        rw [List.mem_singleton.mp hid]
        exact mem_builtIn hy (hbuilt hbuilt')
      · cases hid
    have hmem : y.directory ∈ ys.map Lone.directory := List.mem_map_of_mem hy
    rw [spaceOf, if_pos (hopen (List.prefix_refl _)), if_pos hmem]
    dsimp only [Option.getD_some]
    rw [joinNames_of_subset hlisted]
  · split
    · rename_i hbegins
      rw [spaceOf, if_pos (hopen hbegins), Option.some_or]
    · rfl

/-! ## Another document in the place of one -/

/-- Other files keep the parts of their documents. -/
theorem copy_of_featureLeft {file : String} (hfile : PlainName file) {σ : Pairing}
    (hy : PlainName y.file.toString) (hne : y.file.toString ≠ file)
    (h : Twins (.copy y.file.toString) σ s t) (hleft : Build.FeatureLeft file s s') :
    Twins (.copy y.file.toString) σ s' t := by
  obtain ⟨s₁, hsite, hdocument⟩ := hleft
  have h₁ : Twins (.copy y.file.toString) σ s₁ t := by
    refine h.copy_grows hsite.grows (fun _ => id) fun id e hnew => ⟨fun hunder => ?_, ?_⟩
    · exact hy.featureFile.not_isDirectory hunder hnew.1
    · exact IsDirectory.not_isTag hnew.1
  rcases hdocument with rfl | ⟨r, hbuilt⟩
  · exact h₁
  · refine h₁.copy_grows hbuilt.grows (fun _ => False.elim) fun id e hnew => ?_
    have hin := documentOf_under hnew
    exact ⟨fun hunder => hne (hy.featureFile.eq_of_under hfile.featureFile hunder hin),
      hfile.no_tag_under hin⟩

/-- **A document that is passed over leaves the earlier one of its file.** -/
theorem Summed.passed (h : Summed readMes ys s) (hy : y ∈ ys)
    (hleaves : Leaves y.file (descriptionOf (readMes y.directory)) false t s s')
    (hsite : Build.SiteBuilt s s') (htags : ∀ id, t.tagAt id = none)
    (hparts : ∀ id, Under y.file.toString id → t.catalog.find? id = none) :
    Summed readMes ys s' := by
  constructor
  case orderly => exact h.orderly.siteBuilt (fun _ => PlainName.featureFile) hsite
  case lone => exact h.lone
  case nodup => exact h.nodup
  case tagAt =>
    intro id hid
    obtain ⟨told, hperm, hold⟩ := h.tagAt hid
    exact ⟨told, hperm, by rw [hleaves.tags hid, htags, Tag.combine_none, hold]⟩
  case spaceAt =>
    intro names hnames
    rw [h.spaceAt_again hy hleaves (fun hbuilt => nomatch hbuilt) hnames, h.spaceAt hnames]
  case copy =>
    intro z hz
    obtain ⟨σ, hcopy⟩ := h.copy z hz
    have hz := (h.lone z hz).name.featureFile
    refine ⟨σ, hcopy.copy_grows hsite.grows (fun _ => id) fun id e hnew => ⟨fun hunder => ?_, ?_⟩⟩
    · exact hz.not_isDirectory hunder hnew.1
    · exact IsDirectory.not_isTag hnew.1
  case known =>
    intro id e he
    rcases hleaves.new he with hold | htag | hdirectory | ⟨hunder, hsome⟩
    · exact h.known hold
    · exact Or.inl htag
    · exact Or.inr (Or.inl hdirectory)
    · rw [hparts id hunder] at hsome
      cases hsome

section

variable (h : Summed readMes (before ++ old :: after) s) (hfile : new.file = old.file)
variable (hleaves : Leaves new.file (descriptionOf (readMes new.directory)) true new.left s s')
include h hfile

/-- The documents of the other files. -/
theorem Summed.others : ∀ y ∈ before ++ after, y ∈ before ++ old :: after ∧
    y.file.toString ≠ new.file.toString := by
  have hperm : (before ++ old :: after).Perm (old :: (before ++ after)) := List.perm_middle
  have hnodup := (hperm.map fun y => y.file.toString).nodup_iff.mp h.nodup
  intro y hy
  refine ⟨hperm.mem_iff.mpr (List.mem_cons_of_mem _ hy), fun heq => ?_⟩
  refine (List.nodup_cons.mp hnodup).1 (List.mem_map.mpr ⟨y, hy, ?_⟩)
  rw [heq, hfile]

include hleaves

/-- What the other documents told of a tag, and then the new one, if the old one told it nothing. -/
theorem Summed.tagAt_rebuilt (hnew : new.IsBuild readMes) (htags : ∀ id, old.left.tagAt id = none)
    {id : String} (hid : IsTag id) : ∃ told, told.Perm (toldOf (before ++ new :: after) id) ∧
      s'.tagAt id = Tag.gather told := by
  obtain ⟨told, hperm, heq⟩ := h.tagAt hid
  have hskip : toldOf (before ++ old :: after) id = toldOf before id ++ toldOf after id := by
    simp [toldOf, htags id]
  have htold : told.Perm (toldOf before id ++ toldOf after id) := hskip ▸ hperm
  -- owners lie under the files of their documents
  have hdisjoint : ∀ x, Tag.gather told = some x → ∀ z, new.left.tagAt id = some z →
      ∀ owner ∈ x.owners, owner ∉ z.owners := by
    intro x hx z hz owner howner hin
    obtain ⟨x', hx', howner'⟩ := Tag.mem_owners_of_gather hx howner
    have hmem' : x' ∈ toldOf (before ++ after) id := by
      rw [toldOf, List.filterMap_append]
      exact htold.subset hx'
    obtain ⟨y, hy, hyx⟩ := List.mem_filterMap.mp hmem'
    obtain ⟨hy, hne⟩ := h.others hfile y hy
    have hy := h.lone y hy
    exact hne (hy.name.featureFile.eq_of_under hnew.name.featureFile
      ((hy.own hid hyx).2 owner howner') ((hnew.own hid hz).2 owner hin))
  refine ⟨told ++ (new.left.tagAt id).toList, ?_, ?_⟩
  · have hnew' : toldOf (before ++ new :: after) id =
        toldOf before id ++ ((new.left.tagAt id).toList ++ toldOf after id) := by
      cases hz : new.left.tagAt id <;> simp [toldOf, hz]
    rw [hnew']
    refine (htold.append_right _).trans ?_
    rw [List.append_assoc]
    exact List.perm_append_comm.append_left _
  · rw [hleaves.tags hid, heq, Tag.combine_eq_merge hdisjoint, Tag.gather_merge]

/-- **A later document takes the place of the earlier one** that told tags nothing and of which
nothing is left. -/
theorem Summed.rebuilt (hnew : new.IsBuild readMes) (hold : old.result.isSome)
    (hbuilt : new.result.isSome) (hleft : Build.FeatureLeft new.file.toString s s')
    (htags : ∀ id, old.left.tagAt id = none)
    (hparts : ∀ id, Under new.file.toString id → (old.left.catalog.find? id).isSome →
      (new.left.catalog.find? id).isSome) : Summed readMes (before ++ new :: after) s' := by
  have hothers := h.others hfile
  have hmem : old ∈ before ++ old :: after := List.mem_append_right _ (List.mem_cons_self ..)
  have hlast : new ∈ before ++ new :: after := List.mem_append_right _ (List.mem_cons_self ..)
  have hcases : ∀ y ∈ before ++ new :: after, y = new ∨ y ∈ before ++ after := fun y hy =>
    List.mem_cons.mp (List.perm_middle.subset hy)
  constructor
  case orderly => exact h.orderly.featureLeft (fun _ => PlainName.featureFile) hnew.name hleft
  case lone =>
    intro y hy
    rcases hcases y hy with rfl | hy
    · exact hnew
    · exact h.lone y (hothers y hy).1
  case nodup =>
    have hsame : ((before ++ new :: after).map fun y => y.file.toString) =
        (before ++ old :: after).map fun y => y.file.toString := by simp [hfile]
    rw [hsame]
    exact h.nodup
  case tagAt => exact h.tagAt_rebuilt hfile hleaves hnew htags
  case spaceAt =>
    intro names hnames
    have hresult : new.result.isSome = old.result.isSome := hbuilt.trans hold.symm
    have hdirectory : new.directory = old.directory := by rw [Lone.directory, hfile, Lone.directory]
    rw [hdirectory, hfile] at hleaves
    rw [spaceOf_replaced hfile hresult, ← h.spaceAt hnames]
    exact h.spaceAt_again hmem hleaves (fun _ => hold) hnames
  case copy =>
    intro y hy
    rcases hcases y hy with rfl | hy
    · exact hleaves.copy
    · obtain ⟨hy, hne⟩ := hothers y hy
      obtain ⟨σ, hcopy⟩ := h.copy y hy
      exact ⟨σ, copy_of_featureLeft hnew.name (h.lone y hy).name hne hcopy hleft⟩
  case known =>
    intro id e he
    rcases hleaves.new he with hfound | htag | hdirectory | hfound
    · rcases h.known hfound with htag | hdirectory | ⟨y, hy, hunder, hsome⟩
      · exact Or.inl htag
      · exact Or.inr (Or.inl hdirectory)
      · refine Or.inr (Or.inr ?_)
        rcases List.mem_cons.mp (List.perm_middle.subset hy) with rfl | hy
        -- what the old document has left under the file is there under the new one
        · rw [← hfile] at hunder
          exact ⟨new, hlast, hunder, hparts id hunder hsome⟩
        · exact ⟨y, List.perm_middle.symm.subset (List.mem_cons_of_mem _ hy), hunder, hsome⟩
    · exact Or.inl htag
    · exact Or.inr (Or.inl hdirectory)
    · exact Or.inr (Or.inr ⟨new, hlast, hfound⟩)

/-- **If the registry agrees with the one without the earlier document, that told tags nothing, and
nothing is left of it.** -/
theorem Summed.replaced_of_agree (h' : Summed readMes (before ++ new :: after) s'') {ρ : Pairing}
    (hagree : Agree .unordered ρ s' s'') : (∀ id, old.left.tagAt id = none) ∧
      ∀ id, Under new.file.toString id → (old.left.catalog.find? id).isSome →
        (new.left.catalog.find? id).isSome := by
  have hmem : old ∈ before ++ old :: after := List.mem_append_right _ (List.mem_cons_self ..)
  have hlast : new ∈ before ++ new :: after := List.mem_append_right _ (List.mem_cons_self ..)
  have hold := h.lone old hmem
  have hname := (h'.lone new hlast).name
  refine ⟨fun id => ?_, fun id hunder hsome => ?_⟩
  · rw [Option.eq_none_iff_forall_ne_some]
    intro x hx
    obtain ⟨a, ha, -⟩ := find?_of_tagAt hx
    have hid : IsTag id := hold.sound.orderly.fits ha
    obtain ⟨told, hperm, heq⟩ := h.tagAt hid
    obtain ⟨told', hperm', heq'⟩ := h'.tagAt hid
    -- the places of the tag are those that all the documents have told
    have hplaces : (Tag.places (s'.tagAt id)).length = (Tag.places (s''.tagAt id)).length := by
      have hrel := hagree.tagAt id
      generalize s'.tagAt id = found, s''.tagAt id = found' at hrel
      cases hrel with
      | none => rfl
      | some halike => exact halike.sites.length_eq
    have hlength := (hperm.flatMap_right Tag.sites).length_eq
    have hlength' := (hperm'.flatMap_right Tag.sites).length_eq
    have hsplit : ∀ y : Lone, ((toldOf (before ++ y :: after) id).flatMap Tag.sites).length =
        ((toldOf before id).flatMap Tag.sites).length + (Tag.places (y.left.tagAt id)).length +
          ((toldOf after id).flatMap Tag.sites).length := by
      intro y
      cases hy : y.left.tagAt id <;> simp [toldOf, hy, Tag.places, Nat.add_assoc]
    rw [hleaves.tags hid, Tag.places_combine, List.length_append, heq, Tag.places_gather, heq',
      Tag.places_gather, hlength, hlength', hsplit, hsplit, hx] at hplaces
    have hsites := List.length_pos_of_ne_nil (hold.sited hx).2
    have hsome : Tag.places (some x) = x.sites := rfl
    rw [hsome] at hplaces
    omega
  · by_contra hnone
    have hnone : new.left.catalog.find? id = none := by simpa using hnone
    -- what is left of the earlier document is registered here, and not there
    obtain ⟨d, hd⟩ := Option.isSome_iff_exists.mp hsome
    obtain ⟨σ, hcopy⟩ := h.copy old hmem
    obtain ⟨e, he, -⟩ := hcopy.catalog (hfile ▸ hunder) hd
    rw [← hleaves.left hunder hnone] at he
    obtain ⟨e', he', -⟩ := hagree.partner he
    rcases h'.known he' with htag | hdirectory | ⟨y, hy, hunder', hsome'⟩
    · exact hname.no_tag_under hunder htag
    · exact hname.featureFile.not_isDirectory hunder hdirectory
    · have hsame := (h'.lone y hy).name.featureFile.eq_of_under hname.featureFile hunder' hunder
      obtain rfl := List.inj_on_of_nodup_map h'.nodup hy hlast hsame
      rw [hnone] at hsome'
      cases hsome'

end

/-! ## Documents that are refused -/

section

variable {file path : Path} {tree : FileTree} {settings : Settings} {content : Value}
variable {fault fault' : Fault} {s₁ left : Store} {w : Work}

/-- **A document that is refused is refused at the same point everywhere**: before its feature comes
in, or after. -/
theorem feature_refused (h : Pure s) (hfile : PlainPath file) {readMe : ReadMe} {text : String}
    (htext : readMe.text = .ok text) (hdescribed : ∀ x, s.spaceAt file.parent.names = some x →
      x.description = "" ∨ readMe = some (.ok x.description)) {excluded : List String}
    (hlone : (Build.feature file content excluded readMe).run {} = (.error fault, left))
    (hrun : (Build.feature file content excluded readMe).run s = (.error fault', s₁)) :
    left.catalog.find? file.toString = none ∧ Build.SiteBuilt s s₁ ∨
      left.catalog.find? file.toString ≠ none ∧
        ∃ b r, Build.SiteBuilt s b ∧ Build.DocumentBuilt file.toString r b s₁ := by
  have hslash : Slashless file.parent.names := hfile.proper.slashless
  have hlodged : ∀ {s : Store}, Pure s → (∀ x, s.spaceAt file.parent.names = some x →
      x.description = "" ∨ readMe = some (.ok x.description)) → ∃ n b,
      (Build.namespaceOf file readMe).run s = (.ok (.nameSpace n), b) ∧
        Build.Lodged file text n s b := by
    intro s h hdescribed
    refine (Build.namespaceOf_lodged h.tree h.labelled (fun e he => ?_) hslash readMe hdescribed).1
      text htext
    obtain ⟨m, rfl⟩ := Pure.isDirectory h he (Or.inl rfl)
    rfl
  have hempty : Pure {} := orderly_empty.toSorted
  obtain ⟨n, b, hspace, hb⟩ := hlodged h hdescribed
  obtain ⟨n', b', hspace', hb'⟩ := hlodged hempty nofun
  have hfree : b'.catalog.find? file.toString = none := by
    rw [Option.eq_none_iff_forall_ne_some]
    intro e he
    rcases hb'.new he with hold | ⟨m, rfl⟩
    · cases hold
    · exact hfile.featureFile.not_isDirectory (.refl _) (hb'.built.tree.isDirectory he)
  rw [feature_eq, Action.run_bind_ok hspace'] at hlone
  rw [feature_eq, Action.run_bind_ok hspace] at hrun
  rcases Build.document_decided file.toString (excluded.map stripSigil) content with
    ⟨_, hrefused⟩ | hpassed | hbegun
  · rw [hrefused] at hlone hrun
    cases hlone
    cases hrun
    exact Or.inl ⟨hfree, hb.built⟩
  · rw [hpassed] at hrun
    cases hrun
  · have hleft := (hbegun (.nameSpace n') b').1
    have hdone := (hbegun (.nameSpace n) b).1
    rw [hlone] at hleft
    rw [hrun] at hdone
    obtain ⟨r', hleft⟩ := hleft
    obtain ⟨r, hdone⟩ := hdone
    refine Or.inr ⟨?_, b, r, hb.built, hdone⟩
    rw [hleft.placed.placed.find?]
    nofun

/-- **A later document that is refused is undone, if its feature has not come in**; otherwise the
feature that was registered is not registered any more. -/
theorem buildOne_refused_again (h : Orderly PlainName False w.store) (hfile : PlainPath file)
    (hmem : file.toString ∈ w.store.catalog.ids) {text : String}
    (htext : (readMeOf tree path).text = .ok text)
    (hdescribed : ∀ x, w.store.spaceAt file.parent.names = some x →
      x.description = "" ∨ readMeOf tree path = some (.ok x.description))
    (hexcluded : settings.excluded = .ok (excludedBy settings))
    (hlone : (buildDocument tree settings file path content).run {} = (.error fault, left))
    (hlocal : isLocal fault) :
    ∃ w', (buildOne tree settings file path content).run w = (.ok none, w') ∧ Pure w'.store ∧
      (left.catalog.find? file.toString = none → Restored w.store w'.store) ∧
      (left.catalog.find? file.toString ≠ none →
        w'.store.catalog.find? file.toString ≠ w.store.catalog.find? file.toString) := by
  have hfiles : ∀ file, PlainName file → FeatureFile file := fun _ => PlainName.featureFile
  have hpure := h.toSorted
  obtain ⟨s₁, hbuild⟩ := (buildDocument_leaves h hfile settings hdescribed content).2 fault left hlone
    hlocal
  have hleft := (Build.feature_built hpure hfiles hfile.toFeaturePath content (excludedBy settings)
    (readMeOf tree path)).1
  have hrun := hbuild
  rw [buildDocument_eq hexcluded] at hlone hrun
  rw [hrun] at hleft
  have hpure₁ : Pure s₁ := hpure.featureLeft hfiles ⟨_, hfile, rfl⟩ hleft
  obtain ⟨w', hdone, hback⟩ := buildOne_rolledBack hpure hpure₁ hbuild hlocal
  refine ⟨w', hdone, Pure.rolledBack hback hpure₁ (Pure.snapshot_valid hpure), fun hnone => ?_,
    fun hsome heq => ?_⟩
  · obtain ⟨-, hsite⟩ := (feature_refused hpure hfile htext hdescribed hlone hrun).resolve_right
      fun hbegun => hbegun.1 hnone
    exact ((Kept.refl hpure.consistent).siteBuilt hpure hpure hsite).restored hpure hpure₁ hback
  · obtain ⟨-, b, r, hsite, hbegun⟩ :=
      (feature_refused hpure hfile htext hdescribed hlone hrun).resolve_left fun hnone =>
        hsome hnone.1
    -- the feature that came in is not one that was there
    have hnew := (find?_rolledBack hback hpure₁.consistent).mpr ⟨hbegun.placed.placed.find?, hmem⟩
    rw [heq] at hnew
    exact hbegun.isNew (hsite.grows.has (hpure.labelled hnew).has)

end

end Batch

end StepTrace
