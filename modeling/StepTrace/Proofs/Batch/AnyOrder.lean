import StepTrace.Proofs.Batch.Order
import StepTrace.Proofs.Linking.Unordered

/-!
# Batches in any order

The order in which documents are built does not matter: two batches of the same documents, in any two
orders, build the same files into registries that agree up to order, and still do so when the same
definitions and transforms have been registered and the steps have been linked
(`Batch.build_unordered`).

That is put together from three facts: a batch leaves the sum of its lone builds
(`Batch.build_gathered`), equal sums agree (`Batch.Summed.agree`), and so they do after a pass
(`AgreeInTargets.linkAll`).
-/

namespace StepTrace

open Store

/-! ## The files that have been built -/

namespace Store

variable {s s' : Store}

theorem map_id_featureOf? (h : s.Labelled) (files : List String) :
    (files.filterMap s.featureOf?).map (fun r => (s.get r).id) =
      files.filter fun file => (s.featureOf? file).isSome := by
  induction files with
  | nil => rfl
  | cons file files ih =>
      cases hfile : s.featureOf? file with
      | none =>
          rw [List.filterMap_cons_none hfile, List.filter_cons_of_neg (by simp [hfile])]
          exact ih
      | some r =>
          have hid : (s.get r).id = file := (h (featureOf?_eq_some.mp hfile)).idOf
          rw [List.filterMap_cons_some hfile, List.filter_cons_of_pos (by simp [hfile]),
            List.map_cons, hid, ih]

end Store

namespace Agree

variable {ρ : Pairing} {s s' : Store} (h : Agree .unordered ρ s s')
include h

theorem isSome_featureOf? (file : String) :
    (s.featureOf? file).isSome = (s'.featureOf? file).isSome := by
  have hrel := h.find?_rel file
  unfold featureOf?
  generalize s.catalog.find? file = found, s'.catalog.find? file = found' at hrel
  cases hrel with
  | none => rfl
  | @some e e' he =>
      have hkind := h.kind_eq he
      cases e <;> cases e' <;> first | rfl | cases hkind

/-- The same identifiers are registered. -/
theorem ids_perm (hc : s.catalog.Consistent) (hc' : s'.catalog.Consistent) :
    s.catalog.ids.Perm s'.catalog.ids := by
  refine (List.perm_ext_iff_of_nodup hc.nodup hc'.nodup).mpr fun id => ?_
  rw [Catalog.mem_ids_iff, Catalog.mem_ids_iff]
  constructor
  · rintro ⟨e, he⟩
    obtain ⟨e', he', -⟩ := h.partner he
    exact ⟨e', he'⟩
  · rintro ⟨e', he'⟩
    obtain ⟨e, he, -⟩ := h.partner' he'
    exact ⟨e, he⟩

end Agree

/-! ## What a batch leaves -/

namespace Batch

variable {readMes : List String → ReadMe} {names names' : List String} {ys ys' : List Lone}
variable {s s' : Store}

/-- Documents bring neither definitions nor transforms. -/
theorem Sound.index_of_target (h : Sound names s) {kind : Kind} (hkind : kind.IsTarget) :
    (s.catalog.index kind).entries = [] := by
  refine List.eq_nil_iff_forall_not_mem.mpr fun entry hentry => ?_
  have hkey : entry.1 ∈ (s.catalog.index kind).keys := List.mem_map.mpr ⟨entry, hentry, rfl⟩
  obtain ⟨e, he⟩ := Option.isSome_iff_exists.mp (OrderedMap.contains_iff.mpr hkey)
  obtain ⟨hfind, rfl⟩ := h.orderly.consistent.index_find?.mp he
  have hfits := h.orderly.fits hfind
  cases e <;> first | exact hfits | exact hkind

theorem Gathered.agreeInTargets (h : Gathered readMes names ys s)
    (h' : Gathered readMes names' ys' s') (hperm : ys.Perm ys') : ∃ ρ, AgreeInTargets ρ s s' := by
  obtain ⟨ρ, hagree⟩ := h.summed.agree h'.summed hperm
  refine ⟨ρ, hagree, fun kind hkind => ?_⟩
  rw [OrderedMap.Match, h.sound.index_of_target hkind, h'.sound.index_of_target hkind]
  exact .nil

section

variable {tree : FileTree} {settings : Settings} {base : Option Path}
variable {sources sources' : List Source} {document : Source → Value}

/-- A batch from the empty registry leaves the sum of its lone builds, and tells which of its files
have been built. -/
theorem build_told (hgives : ∀ source ∈ sources, source.Gives (some (document source)))
    (hplain : ∀ source ∈ sources, PlainPath (knownAs base source.path))
    (hdistinct : (sources.map fun source => (knownAs base source.path).toString).Nodup)
    (hreadMe : ∀ source ∈ sources,
      readMeOf tree source.path = readMes (knownAs base source.path).parent.names)
    (hlocal : ∀ source ∈ sources, ∀ fault s, (buildDocument tree settings
      (knownAs base source.path) source.path (document source)).run {} = (.error fault, s) →
        isLocal fault) (warnings : List Warning) :
    ∃ batch w names, (build tree settings base sources).run { store := {}, warnings } =
        (.ok batch, w) ∧
      Gathered readMes names (sources.filterMap (loneOf tree settings base document)) w.store ∧
      (batch.features.map fun r => (w.store.get r).id) =
        (sources.map fun source => (knownAs base source.path).toString).filter
          (fun file => (w.store.featureOf? file).isSome) ∧
      batch.skipped = (sources.map fun source => (knownAs base source.path).toString).filter
        fun file => !(w.store.featureOf? file).isSome := by
  obtain ⟨batch, w, names, hrun, hgathered⟩ := build_gathered (w := { store := {}, warnings })
    hgives hplain hdistinct hreadMe hlocal (gathered_empty readMes) fun _ _ => List.not_mem_nil
  have hreads : List.Forall₂ Source.Reads sources (sources.map fun source => some (document source)) :=
    List.forall₂_map_right_iff.mpr (List.forall₂_same.mpr fun source hs => (hgives source hs).reads)
  obtain ⟨hfeatures, hskipped⟩ :=
    build_partition hreads sound_empty (fresh_calls hreads hplain hdistinct) hrun
  refine ⟨batch, w, names, hrun, hgathered, ?_, ?_⟩
  · rw [hfeatures]
    exact map_id_featureOf? hgathered.sound.orderly.labelled _
  · simpa only [Option.not_isSome] using hskipped

/-- **The order in which documents are built does not matter.**  Of each document it is asked that its
build alone is refused, if at all, for its shape. -/
theorem build_unordered (hperm : sources.Perm sources')
    (hgives : ∀ source ∈ sources, ∃ content, source.Gives (some content) ∧
      ∀ fault s, (buildDocument tree settings (knownAs base source.path) source.path content).run
        {} = (.error fault, s) → isLocal fault)
    (hplain : ∀ source ∈ sources, PlainPath (knownAs base source.path))
    (hdistinct : (sources.map fun source => (knownAs base source.path).toString).Nodup)
    (hreadMe : ∀ source ∈ sources,
      readMeOf tree source.path = readMes (knownAs base source.path).parent.names)
    (targets : List Target) (warnings warnings' : List Warning) :
    ∃ batch w batch' w',
      (build tree settings base sources).run { store := {}, warnings } = (.ok batch, w) ∧
      (build tree settings base sources').run { store := {}, warnings := warnings' } =
        (.ok batch', w') ∧
      (batch.features.map fun r => (w.store.get r).id).Perm
        (batch'.features.map fun r => (w'.store.get r).id) ∧
      batch.skipped.Perm batch'.skipped ∧
      ∃ report v report' v',
        LinkingPass.linkAll.run { w with store := w.store.registerTargets targets } =
          (.ok report, v) ∧
        LinkingPass.linkAll.run { w' with store := w'.store.registerTargets targets } =
          (.ok report', v') ∧
        v.store.catalog.ids.Perm v'.store.catalog.ids ∧
        ∃ ρ, AgreeInTargets ρ v.store v'.store := by
  choose! document hgives hlocal using hgives
  have hmem : ∀ source ∈ sources', source ∈ sources := fun _ h => hperm.mem_iff.mpr h
  have hfiles := hperm.map fun source => (knownAs base source.path).toString
  obtain ⟨batch, w, names, hrun, hgathered, hfeatures, hskipped⟩ :=
    build_told hgives hplain hdistinct hreadMe hlocal warnings
  obtain ⟨batch', w', names', hrun', hgathered', hfeatures', hskipped'⟩ :=
    build_told (fun source h => hgives source (hmem source h))
      (fun source h => hplain source (hmem source h)) (hfiles.nodup_iff.mp hdistinct)
      (fun source h => hreadMe source (hmem source h))
      (fun source h => hlocal source (hmem source h)) warnings'
  obtain ⟨ρ, hagree⟩ := hgathered.agreeInTargets hgathered' (hperm.filterMap _)
  refine ⟨batch, w, batch', w', hrun, hrun', ?_, ?_, ?_⟩
  · rw [hfeatures, hfeatures']
    simp only [hagree.isSome_featureOf?]
    exact hfiles.filter _
  · rw [hskipped, hskipped']
    simp only [hagree.isSome_featureOf?]
    exact hfiles.filter _
  · obtain ⟨σ, -, htargets⟩ := hagree.registerTargets targets
    have hs := (hgathered.sound.orderly.wellformed fun _ => PlainName.featureFile).registerTargets
      targets
    have hs' := (hgathered'.sound.orderly.wellformed fun _ => PlainName.featureFile).registerTargets
      targets
    obtain ⟨report, v, report', v', hlink, hlink', hlinked⟩ :=
      htargets.linkAll hs hs' w.warnings w'.warnings
    have hrewired := LinkingPass.linkAll_rewired { w with store := w.store.registerTargets targets }
    have hrewired' :=
      LinkingPass.linkAll_rewired { w' with store := w'.store.registerTargets targets }
    rw [hlink] at hrewired
    rw [hlink'] at hrewired'
    refine ⟨report, v, report', v', hlink, hlink', ?_, σ, hlinked⟩
    rw [hrewired.catalog, hrewired'.catalog]
    exact htargets.toAgree.ids_perm hs.consistent hs'.consistent

end

private def shelfStep (text : String) : Value :=
  .ofFields [("keyword", .text "Given "), ("text", .text text)]

private def shelfDocument (tag : String) (steps : List Value) : Value :=
  .ofFields [("feature", .ofFields [("tags", .list [.ofFields [("name", .text tag)]]),
    ("children", .list [.ofFields [("scenario", .ofFields [
      ("tags", .list [.ofFields [("name", .text "@open")]]), ("steps", .list steps)])]])])]

/-- A directory with a read-me file. -/
private def shelfTree : FileTree where
  workingDirectory := .ofString "/"
  nodes := ⟨[(["shelf"], .directory), (["shelf", "README.md"], .file (some "All books."))]⟩

/-- Two documents that share a tag, one that is excluded, and one that is malformed behind its
tags. -/
private def shelf : List Source :=
  [⟨.ofString "shelf/torn.feature", pure (some (shelfDocument "@long" [.ofFields []]))⟩,
    ⟨.ofString "shelf/book.feature", pure (some (shelfDocument "@long" [shelfStep "3 books"]))⟩,
    ⟨.ofString "attic/draft.feature", pure (some (shelfDocument "@wip" [shelfStep "a draft"]))⟩,
    ⟨.ofString "shelf/list.feature", pure (some (shelfDocument "@open" [shelfStep "a list"]))⟩]

private def shelfTargets : List Target :=
  [.definition { id := "d", keyword := "Given", pattern := .text "(.*) books" },
    .transform { id := "t", keyword := "Transform", pattern := .text "[0-9]+" }]

private def buildShelf (sources : List Source) : Job Batch :=
  build shelfTree { excludedTags := [.text "@wip"] } none sources

/-- Building one of the documents fails at most with an error of the document's own. -/
private def shelfMild (path : String) (document : Value) : Bool :=
  match ((buildDocument shelfTree { excludedTags := [.text "@wip"] }
    (knownAs none (.ofString path)) (.ofString path) document).run {}).1 with
  | .ok _ => true
  | .error fault => isLocal fault

private theorem isLocal_of_shelfMild {path : String} {document : Value} {fault : Fault} {s : Store}
    (hmild : shelfMild path document = true)
    (hrun : (buildDocument shelfTree { excludedTags := [.text "@wip"] }
      (knownAs none (.ofString path)) (.ofString path) document).run {} = (.error fault, s)) :
    isLocal fault = true := by
  simpa only [shelfMild, hrun] using hmild

private theorem readMeOf_congr (tree : FileTree) {p q : Path} (h : p.parent = q.parent) :
    readMeOf tree p = readMeOf tree q := by
  unfold readMeOf
  rw [h]

/-- The shelf from either end. -/
theorem build_unordered_shelf : ∃ batch w batch' w',
    (buildShelf shelf).run { store := {} } = (.ok batch, w) ∧
    (buildShelf shelf.reverse).run { store := {} } = (.ok batch', w') ∧
    (batch.features.map fun r => (w.store.get r).id).Perm
      (batch'.features.map fun r => (w'.store.get r).id) ∧
    batch.skipped.Perm batch'.skipped ∧
    ∃ report v report' v',
      LinkingPass.linkAll.run { w with store := w.store.registerTargets shelfTargets } =
        (.ok report, v) ∧
      LinkingPass.linkAll.run { w' with store := w'.store.registerTargets shelfTargets } =
        (.ok report', v') ∧
      v.store.catalog.ids.Perm v'.store.catalog.ids ∧
      ∃ ρ, AgreeInTargets ρ v.store v'.store := by
  have hknown : shelf.map (fun source => knownAs none source.path) = shelf.map Source.path := by
    decide +kernel
  have hpaths : ∀ path ∈ shelf.map Source.path, PlainPath path ∧
      (Path.mk "" (path.parent.names ++ [""])).parent = path.parent := by
    intro path hpath
    simp only [shelf, List.map_cons, List.map_nil, List.mem_cons, List.not_mem_nil, or_false] at hpath
    rcases hpath with rfl | rfl | rfl | rfl
    all_goals exact ⟨plainPath_ofString (by decide) (by decide), by decide⟩
  have hsame : ∀ source ∈ shelf, knownAs none source.path = source.path :=
    fun source hsource => List.map_inj_left.mp hknown source hsource
  let readMes (names : List String) : ReadMe := readMeOf shelfTree ⟨"", names ++ [""]⟩
  have hreadMe : ∀ source ∈ shelf,
      readMeOf shelfTree source.path = readMes (knownAs none source.path).parent.names := by
    intro source hsource
    rw [hsame source hsource]
    exact (readMeOf_congr shelfTree (hpaths _ (List.mem_map_of_mem hsource)).2).symm
  refine build_unordered (List.reverse_perm shelf).symm ?_ ?_ (by decide +kernel) hreadMe
    shelfTargets [] []
  · intro source hsource
    simp only [shelf, List.mem_cons, List.not_mem_nil, or_false] at hsource
    rcases hsource with rfl | rfl | rfl | rfl
    all_goals
      refine ⟨_, fun w => ⟨w.warnings, rfl⟩, fun fault s hrun => ?_⟩
      exact isLocal_of_shelfMild (by decide +kernel) hrun
  · intro source hsource
    rw [hsame source hsource]
    exact (hpaths _ (List.mem_map_of_mem hsource)).1

end Batch

end StepTrace
