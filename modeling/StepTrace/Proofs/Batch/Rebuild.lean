import StepTrace.Proofs.Batch.Again
import StepTrace.Proofs.Batch.AnyOrder

/-!
# Batches after which a file is built again

After a batch one of its files is built again, from another document.  The registry should then be
the one of a batch in which the later document, if it is built, stands in the place of the earlier
one; and if it is not built, what is registered should stay.

The three outcomes of the later document are those of its lone build, each with a lemma of its own:
it is built (`Summed.buildOne_built`), passed over (`Summed.buildOne_passed`) or refused
(`Gathered.buildOne_refused`).  Together they tell for which pairs of documents the file is replaced
cleanly, and for which it is not (`rebuild_clean_iff`).
-/

namespace StepTrace

open Store

namespace Batch

variable {readMes : List String → ReadMe} {names : List String} {ys before after : List Lone}
variable {old new : Lone} {tree : FileTree} {settings : Settings} {path : Path} {content : Value}
variable {s s' : Store} {w : Work}

/-! ## The three outcomes -/

/-- Of the same documents the same names are registered. -/
theorem Summed.find?_kept (h : Summed readMes ys s) (h' : Summed readMes ys s') (hkept : Kept s s')
    (id : String) : s'.catalog.find? id = s.catalog.find? id := by
  cases hfound : s.catalog.find? id with
  | some e => exact hkept.find? h'.orderly.consistent hfound
  | none =>
      obtain ⟨ρ, hagree⟩ := h.agree h' (.refl _)
      rw [Option.eq_none_iff_forall_ne_some]
      intro e he
      obtain ⟨e', he', -⟩ := hagree.partner' he
      rw [hfound] at he'
      cases he'

section

variable (hnew : new.IsBuild readMes) (hreadMe : readMeOf tree path = readMes new.directory)
variable (hlone : (buildDocument tree settings new.file path content).run {} =
  (.ok new.result, new.left))
include hnew hreadMe hlone

/-- What a document leaves that is built or passed over on top of an earlier one. -/
theorem Summed.buildOne_leaves (h : Summed readMes ys w.store) :
    ∃ r s', (buildOne tree settings new.file path content).run w =
        (.ok r, { w with store := s' }) ∧
      (Build.feature new.file content (excludedBy settings) (readMes new.directory)).run w.store =
        (.ok r, s') ∧
      r.isSome = new.result.isSome ∧
      Leaves new.file (descriptionOf (readMes new.directory)) new.result.isSome new.left w.store
        s' := by
  have hdescribed : ∀ x, w.store.spaceAt new.directory = some x →
      x.description = "" ∨ readMeOf tree path = some (.ok x.description) := by
    intro x hx
    rw [h.spaceAt hnew.slashless] at hx
    rw [hreadMe]
    exact spaceOf_described h.lone hx
  obtain ⟨text, r, s', htext, hbuild, hsome, hleaves⟩ := (buildDocument_leaves h.orderly hnew.plain
    settings hdescribed content).1 new.result new.left hlone
  have hdescription : descriptionOf (readMes new.directory) = text := by
    rw [descriptionOf, ← hreadMe, htext]
  have hrun := buildDocument_ok hbuild
  rw [hreadMe] at hrun
  refine ⟨r, s', ?_, hrun, hsome, hdescription ▸ hleaves⟩
  rw [buildOne_run, hbuild]

variable (hfile : new.file = old.file)
include hfile

/-- **A document that is built takes the place of the earlier one** just if that told tags nothing
and nothing of it is left. -/
theorem Summed.buildOne_built (h : Summed readMes (before ++ old :: after) w.store)
    (hold : old.result.isSome) (hbuilt : new.result.isSome) :
    ∃ r w', (buildOne tree settings new.file path content).run w = (.ok (some r), w') ∧
      ∀ t, Summed readMes (before ++ new :: after) t →
        ((∃ ρ, Agree .unordered ρ w'.store t) ↔ (∀ id, old.left.tagAt id = none) ∧
          ∀ id, Under new.file.toString id → (old.left.catalog.find? id).isSome →
            (new.left.catalog.find? id).isSome) := by
  obtain ⟨r, s', hrun, hfeature, hsome, hleaves⟩ := h.buildOne_leaves hnew hreadMe hlone
  obtain ⟨r, rfl⟩ := Option.isSome_iff_exists.mp (hsome.trans hbuilt)
  rw [hbuilt] at hleaves
  refine ⟨r, _, hrun, fun t ht => ⟨?_, ?_⟩⟩
  · rintro ⟨ρ, hagree⟩
    exact h.replaced_of_agree hfile hleaves ht hagree
  · rintro ⟨htags, hparts⟩
    have hleft := (Build.feature_built h.orderly.toSorted (fun _ => PlainName.featureFile)
      hnew.plain.toFeaturePath content (excludedBy settings) (readMes new.directory)).1
    rw [hfeature] at hleft
    exact (h.rebuilt hfile hleaves hnew hold hbuilt hleft htags hparts).agree ht (.refl _)

/-- **A document that is passed over leaves what is registered.** -/
theorem Summed.buildOne_passed (h : Summed readMes (before ++ old :: after) w.store)
    (hpassed : new.result = none) :
    ∃ w', (buildOne tree settings new.file path content).run w = (.ok none, w') ∧
      Summed readMes (before ++ old :: after) w'.store ∧
      ∀ id, w'.store.catalog.find? id = w.store.catalog.find? id := by
  have hmem : old ∈ before ++ old :: after := List.mem_append_right _ (List.mem_cons_self ..)
  have hpure := h.orderly.toSorted
  obtain ⟨r, s', hrun, hfeature, hsome, hleaves⟩ := h.buildOne_leaves hnew hreadMe hlone
  rw [hpassed] at hsome hleaves
  obtain rfl := Option.isSome_eq_false_iff.mp hsome |> Option.isNone_iff_eq_none.mp
  have hsite := (Build.feature_built hpure (fun _ => PlainName.featureFile)
    hnew.plain.toFeaturePath content (excludedBy settings) (readMes new.directory)).2
  rw [hfeature] at hsite
  have hsite : Build.SiteBuilt w.store s' := hsite none rfl
  have htags : ∀ id, new.left.tagAt id = none := by
    intro id
    rw [Option.eq_none_iff_forall_ne_some]
    intro x hx
    have hbuilt := (hnew.sited hx).1
    rw [hpassed] at hbuilt
    cases hbuilt
  have hparts : ∀ id, Under old.file.toString id → new.left.catalog.find? id = none :=
    fun id hunder => hnew.free hpassed (hfile ▸ hunder)
  rw [Lone.directory, hfile] at hleaves
  have hagain := h.passed hmem hleaves hsite htags hparts
  have hkept : Kept w.store s' := (Kept.refl hpure.consistent).siteBuilt hpure hpure hsite
  exact ⟨_, hrun, hagain, h.find?_kept hagain hkept⟩

end

/-- **A document that is refused leaves what is registered** just if its feature has not come in. -/
theorem Gathered.buildOne_refused (h : Gathered readMes names ys w.store) (hmem : old ∈ ys)
    (hold : old.result.isSome) (hreadMe : readMeOf tree path = readMes old.directory)
    (hexcluded : settings.excluded = .ok (excludedBy settings)) {fault : Fault} {left : Store}
    (hlone : (buildDocument tree settings old.file path content).run {} = (.error fault, left))
    (hlocal : isLocal fault) :
    ∃ w', (buildOne tree settings old.file path content).run w = (.ok none, w') ∧
      (left.catalog.find? old.file.toString = none → Summed readMes ys w'.store ∧
        ∀ id, w'.store.catalog.find? id = w.store.catalog.find? id) ∧
      (left.catalog.find? old.file.toString ≠ none →
        w'.store.catalog.find? old.file.toString ≠ w.store.catalog.find? old.file.toString) := by
  have hlone' := (h.lone old hmem).1
  -- the file has been built
  have hid : old.file.toString ∈ w.store.catalog.ids := by
    obtain ⟨r, hr⟩ := Option.isSome_iff_exists.mp hold
    obtain ⟨σ, hcopy⟩ := h.copy old hmem
    obtain ⟨e, he, -⟩ := hcopy.catalog (.refl _) (hlone'.registered hr)
    exact Catalog.mem_ids_iff.mpr ⟨e, he⟩
  have htext := hlone'.text_eq
  rw [← hreadMe] at htext
  have hdescribed : ∀ x, w.store.spaceAt old.directory = some x →
      x.description = "" ∨ readMeOf tree path = some (.ok x.description) := by
    intro x hx
    rw [h.spaceAt hlone'.slashless] at hx
    rw [hreadMe]
    exact spaceOf_described (fun y hy => (h.lone y hy).1) hx
  obtain ⟨w', hrun, hpure, hback, hlost⟩ := buildOne_refused_again h.sound.orderly hlone'.plain hid
    htext hdescribed hexcluded hlone hlocal
  refine ⟨w', hrun, fun hnone => ?_, hlost⟩
  have hrestored := hback hnone
  have hsound := h.sound.restored hrestored hpure old.file.toString
  exact ⟨(h.restored hrestored hsound).summed, hrestored.find?⟩

/-! ## Which documents are replaced cleanly -/

/-- The record of a lone build that built its document. -/
def builtOf (file : Path) : Except Fault (Option (Ref Feature)) × Store → Option Lone
  | (.ok (some r), left) => some ⟨file, some r, left⟩
  | (.ok none, _) => none
  | (.error _, _) => none

/-- A document replaces an earlier one of the file cleanly, told from the lone builds of the two: if
it is built, the earlier one has told tags nothing, and all its parts are registered anew; if it is
refused, that is before its feature has come in. -/
def Replaces (file : String) (old : Store) : Except Fault (Option (Ref Feature)) × Store → Prop
  | (.ok (some _), new) => (∀ id, old.tagAt id = none) ∧
      ∀ id, Under file id → (old.catalog.find? id).isSome → (new.catalog.find? id).isSome
  | (.ok none, _) => True
  | (.error _, left) => left.catalog.find? file = none

/-- **One more document of a file that has been built**, against the registry `t` of the last
documents that were built. -/
theorem Gathered.buildOne_again (h : Gathered readMes names (before ++ old :: after) w.store)
    (hold : old.result.isSome) (hreadMe : readMeOf tree path = readMes old.directory)
    (hexcluded : settings.excluded = .ok (excludedBy settings))
    {outcome : Except Fault (Option (Ref Feature)) × Store}
    (hlone : (buildDocument tree settings old.file path content).run {} = outcome)
    (hlocal : ∀ fault, outcome.1 = .error fault → isLocal fault) :
    ∃ result w', (buildOne tree settings old.file path content).run w = (.ok result, w') ∧
      result.isSome = (builtOf old.file outcome).isSome ∧
      ∀ t, Summed readMes (before ++ (builtOf old.file outcome).getD old :: after) t →
        ((∃ ρ, Agree .unordered ρ w'.store t) ∧ (result = none →
            ∀ id, w'.store.catalog.find? id = w.store.catalog.find? id) ↔
          Replaces old.file.toString old.left outcome) := by
  have hmem : old ∈ before ++ old :: after := List.mem_append_right _ (List.mem_cons_self ..)
  have hplain := (h.lone old hmem).1.plain
  have hlast : ∀ new : Lone, new.file = old.file → outcome = (.ok new.result, new.left) →
      new.IsBuild readMes := by
    intro new hfile houtcome
    have hrun := buildDocument_ok (hlone.trans houtcome)
    rw [hreadMe] at hrun
    rw [← hfile] at hplain hrun
    rw [Lone.directory, ← hfile] at hrun
    exact ⟨hplain, content, excludedBy settings, hrun⟩
  rcases outcome with ⟨fault | _ | r, left⟩
  · -- refused
    obtain ⟨w', hrun, hback, hlost⟩ :=
      h.buildOne_refused hmem hold hreadMe hexcluded hlone (hlocal fault rfl)
    refine ⟨none, w', hrun, rfl, fun t ht => ⟨?_, fun hnone => ?_⟩⟩
    · rintro ⟨-, hfind⟩
      by_contra hne
      exact hlost hne (hfind rfl _)
    · obtain ⟨hsummed, hfind⟩ := hback hnone
      exact ⟨hsummed.agree ht (.refl _), fun _ => hfind⟩
  · -- passed over
    let new : Lone := ⟨old.file, none, left⟩
    have hfile : new.file = old.file := rfl
    obtain ⟨w', hrun, hsummed, hfind⟩ :=
      h.summed.buildOne_passed (hlast new hfile rfl) hreadMe hlone hfile rfl
    refine ⟨none, w', hrun, rfl, fun t ht => ⟨fun _ => trivial, fun _ => ?_⟩⟩
    exact ⟨hsummed.agree ht (.refl _), fun _ => hfind⟩
  · -- built
    let new : Lone := ⟨old.file, some r, left⟩
    have hfile : new.file = old.file := rfl
    obtain ⟨r', w', hrun, hagree⟩ :=
      h.summed.buildOne_built (hlast new hfile rfl) hreadMe hlone hfile hold rfl
    refine ⟨some r', w', hrun, rfl, fun t ht => ⟨?_, fun hclean => ?_⟩⟩
    · rintro ⟨hagree', -⟩
      exact (hagree t ht).mp hagree'
    · exact ⟨(hagree t ht).mpr hclean, fun hnone => absurd hnone (Option.some_ne_none r')⟩

/-! ## One more document after a batch -/

/-- The build of a document alone. -/
def buildLone (tree : FileTree) (settings : Settings) (base : Option Path)
    (document : Source → Value) (source : Source) : Except Fault (Option (Ref Feature)) × Store :=
  (buildDocument tree settings (knownAs base source.path) source.path (document source)).run {}

section

variable {base : Option Path} {document : Source → Value} {source again : Source}
variable {sources : List Source} {y : Lone}

theorem loneOf_eq_some : loneOf tree settings base document source = some y ↔
    y.file = knownAs base source.path ∧
      buildLone tree settings base document source = (.ok y.result, y.left) := by
  unfold loneOf buildLone
  obtain ⟨file, result, left⟩ := y
  split
  · rename_i result' left' hrun
    rw [hrun]
    simp only [Option.some.injEq, Lone.mk.injEq, Prod.mk.injEq, Except.ok.injEq, eq_comm]
  · rename_i hrun
    rw [hrun]
    simp

theorem loneOf_of_builtOf {file : Path} (hfile : knownAs base source.path = file)
    (hbuilt : builtOf file (buildLone tree settings base document source) = some y) :
    loneOf tree settings base document source = some y := by
  rw [loneOf_eq_some, hfile]
  generalize buildLone tree settings base document source = outcome at hbuilt ⊢
  rcases outcome with ⟨fault | _ | r, left⟩
  · cases hbuilt
  · cases hbuilt
  · cases hbuilt
    exact ⟨rfl, rfl⟩

/-- A file that has been built is one whose document is built alone. -/
theorem Gathered.loneOf_of_built
    (h : Gathered readMes names (sources.filterMap (loneOf tree settings base document)) s)
    (hdistinct : (sources.map fun source => (knownAs base source.path).toString).Nodup)
    (hsource : source ∈ sources) (hplain : PlainPath (knownAs base source.path))
    (hbuilt : (s.featureOf? (knownAs base source.path).toString).isSome) :
    ∃ y, loneOf tree settings base document source = some y ∧ y.result.isSome := by
  obtain ⟨r, hr⟩ := Option.isSome_iff_exists.mp hbuilt
  have hname : PlainName (knownAs base source.path).toString := ⟨_, hplain, rfl⟩
  rcases h.known (featureOf?_eq_some.mp hr) with htag | hdirectory | ⟨y, hy, hunder, hsome⟩
  · exact absurd htag hname.not_isTag
  · exact absurd hdirectory (hname.featureFile.not_isDirectory (.refl _))
  · have hlone := (h.lone y hy).1
    have hfile := hlone.name.featureFile.eq_of_under hname.featureFile hunder (.refl _)
    obtain ⟨other, hother, hy'⟩ := List.mem_filterMap.mp hy
    have hknown := (loneOf_eq_some.mp hy').1
    obtain rfl := List.inj_on_of_nodup_map hdistinct hother hsource (hknown ▸ hfile)
    refine ⟨y, hy', ?_⟩
    by_contra hnone
    rw [hlone.free (by simpa using hnone) hunder] at hsome
    cases hsome

/-- A batch of one document is its build. -/
theorem build_single {result : Option (Ref Feature)} {w₁ w' : Work}
    (hread : again.document.run w = (.ok (some content), w₁))
    (hone : (buildOne tree settings (knownAs base again.path) again.path content).run w₁ =
      (.ok result, w')) :
    ∃ batch, (build tree settings base [again]).run w = (.ok batch, w') ∧
      batch.features = result.toList := by
  refine ⟨({} : Batch).record (knownAs base again.path).toString result, ?_, ?_⟩
  · have hone : (buildRead tree settings base again (some content)).run w₁ = (.ok result, w') :=
      hone
    rw [build_cons_run hread, Action.run_bind_ok hone]
    rfl
  · cases result <;> rfl

/-- The last document of a file that was built: the later one if that is built, else the earlier. -/
theorem loneOf_last (hold : loneOf tree settings base document source = some old)
    (hagain : knownAs base again.path = old.file) {result : Option (Ref Feature)}
    (hsome : result.isSome =
      (builtOf old.file (buildLone tree settings base document again)).isSome) :
    loneOf tree settings base document (if result.toList.isEmpty then source else again) =
      some ((builtOf old.file (buildLone tree settings base document again)).getD old) := by
  cases hb : builtOf old.file (buildLone tree settings base document again) with
  | none =>
      rw [hb] at hsome
      obtain rfl := Option.isNone_iff_eq_none.mp (by simpa using hsome)
      exact hold
  | some new =>
      rw [hb] at hsome
      obtain ⟨r, rfl⟩ := Option.isSome_iff_exists.mp hsome
      exact loneOf_of_builtOf hagain hb

/-- A batch with either of two documents of one file. -/
theorem build_either {before after : List Source}
    (hgives : ∀ x ∈ again :: (before ++ source :: after), x.Gives (some (document x)))
    (hplain : ∀ x ∈ again :: (before ++ source :: after), PlainPath (knownAs base x.path))
    (hreadMe : ∀ x ∈ again :: (before ++ source :: after),
      readMeOf tree x.path = readMes (knownAs base x.path).parent.names)
    (hlocal : ∀ x ∈ again :: (before ++ source :: after), ∀ fault s,
      buildLone tree settings base document x = (.error fault, s) → isLocal fault)
    (hdistinct : ((before ++ source :: after).map fun x => (knownAs base x.path).toString).Nodup)
    (hsame : knownAs base again.path = knownAs base source.path) (warnings : List Warning)
    (last : Source) (hlast : last = again ∨ last = source) :
    ∃ batch w names, (build tree settings base (before ++ last :: after)).run
        { store := {}, warnings } = (.ok batch, w) ∧
      Gathered readMes names
        ((before ++ last :: after).filterMap (loneOf tree settings base document)) w.store := by
  have hsub : ∀ x ∈ before ++ last :: after, x ∈ again :: (before ++ source :: after) := by
    intro x hx
    rcases hlast with rfl | rfl
    · simp only [List.mem_append, List.mem_cons] at hx ⊢
      tauto
    · exact List.mem_cons_of_mem _ hx
  have hknown : knownAs base last.path = knownAs base source.path := by
    rcases hlast with rfl | rfl
    · exact hsame
    · rfl
  have hfiles : (before ++ last :: after).map (fun x => (knownAs base x.path).toString) =
      (before ++ source :: after).map fun x => (knownAs base x.path).toString := by
    simp [hknown]
  obtain ⟨batch, w, names, hrun, hgathered, -⟩ := build_told (fun x hx => hgives x (hsub x hx))
    (fun x hx => hplain x (hsub x hx)) (hfiles ▸ hdistinct) (fun x hx => hreadMe x (hsub x hx))
    (fun x hx => hlocal x (hsub x hx)) warnings
  exact ⟨batch, w, names, hrun, hgathered⟩

/-- **When a file is replaced cleanly.**  After a batch, one of its files that has been built is
built again.  The registry agrees with the one of a batch of the last documents that were built, and
a document that is not built leaves what was registered, if and only if the lone builds of the two
documents say so. -/
theorem rebuild_clean_iff {before after : List Source}
    (hgives : ∀ x ∈ again :: (before ++ source :: after), x.Gives (some (document x)))
    (hplain : ∀ x ∈ again :: (before ++ source :: after), PlainPath (knownAs base x.path))
    (hreadMe : ∀ x ∈ again :: (before ++ source :: after),
      readMeOf tree x.path = readMes (knownAs base x.path).parent.names)
    (hlocal : ∀ x ∈ again :: (before ++ source :: after), ∀ fault s,
      buildLone tree settings base document x = (.error fault, s) → isLocal fault)
    (hdistinct : ((before ++ source :: after).map fun x => (knownAs base x.path).toString).Nodup)
    (hsame : knownAs base again.path = knownAs base source.path)
    {warnings : List Warning} {batch : Batch}
    (hrun : (build tree settings base (before ++ source :: after)).run { store := {}, warnings } =
      (.ok batch, w))
    (hbuilt : (w.store.featureOf? (knownAs base source.path).toString).isSome) :
    ∃ batch' w' batch'' w'',
      (build tree settings base [again]).run w = (.ok batch', w') ∧
      (build tree settings base (before ++
        (if batch'.features.isEmpty then source else again) :: after)).run
          { store := {}, warnings } = (.ok batch'', w'') ∧
      ((∃ ρ, Agree .unordered ρ w'.store w''.store) ∧ (batch'.features = [] →
          ∀ id, w'.store.catalog.find? id = w.store.catalog.find? id) ↔
        Replaces (knownAs base source.path).toString
          (buildLone tree settings base document source).2
          (buildLone tree settings base document again)) := by
  have hmem : source ∈ before ++ source :: after :=
    List.mem_append_right _ (List.mem_cons_self ..)
  have htold := build_either hgives hplain hreadMe hlocal hdistinct hsame warnings
  obtain ⟨_, _, names, hrun', h⟩ := htold source (Or.inr rfl)
  rw [hrun] at hrun'
  cases hrun'
  -- the earlier document
  obtain ⟨old, hold, hresult⟩ := h.loneOf_of_built hdistinct hmem
    (hplain source (List.mem_cons_of_mem _ hmem)) hbuilt
  obtain ⟨hfile, hlone⟩ := loneOf_eq_some.mp hold
  have hexcluded : settings.excluded = .ok (excludedBy settings) := by
    refine (excludedBy_cases settings).resolve_right ?_
    rintro ⟨fault, hfault⟩
    rw [buildLone, buildDocument_run_error hfault] at hlone
    cases hlone
  have hsplit : ∀ {x y}, loneOf tree settings base document x = some y →
      (before ++ x :: after).filterMap (loneOf tree settings base document) =
        before.filterMap (loneOf tree settings base document) ++
          y :: after.filterMap (loneOf tree settings base document) := by
    intro x y hy
    rw [List.filterMap_append, List.filterMap_cons_some hy]
  rw [hsplit hold] at h
  -- the later document
  have hagain : knownAs base again.path = old.file := hsame.trans hfile.symm
  have hreadMe₁ : readMeOf tree again.path = readMes old.directory := by
    rw [Lone.directory, ← hagain]
    exact hreadMe again (List.mem_cons_self ..)
  obtain ⟨warnings₁, hread⟩ := hgives again (List.mem_cons_self ..) w
  have h₁ : Gathered readMes names _ ({ w with warnings := warnings₁ } : Work).store := h
  have hlone' : (buildDocument tree settings old.file again.path (document again)).run {} =
      buildLone tree settings base document again := by rw [buildLone, hagain]
  obtain ⟨result, w', hone, hsome, hclean⟩ := h₁.buildOne_again hresult hreadMe₁ hexcluded hlone'
    fun fault hfault => hlocal again (List.mem_cons_self ..) fault _ (Prod.ext hfault rfl)
  rw [← hagain] at hone
  obtain ⟨batch', hrun', hfeatures⟩ := build_single hread hone
  -- the last document of the file that was built
  have hlast := loneOf_last hold hagain hsome
  rw [← hfeatures] at hlast
  obtain ⟨batch'', w'', names'', hrun'', h''⟩ :=
    htold (if batch'.features.isEmpty then source else again) (by split <;> simp)
  rw [hsplit hlast] at h''
  refine ⟨batch', w', batch'', w'', hrun', hrun'', ?_⟩
  have hempty : batch'.features = [] ↔ result = none := by
    rw [hfeatures, Option.toList_eq_nil_iff]
  rw [hempty, ← hfile, hlone]
  exact hclean w''.store h''.summed

end

private def ledgerScenario (text : String) : Value :=
  .ofFields [("scenario", .ofFields [("steps", .list [
    .ofFields [("keyword", .text "Given "), ("text", .text text)]])])]

private def ledgerDocument (tags texts : List String) : Value :=
  .ofFields [("feature", .ofFields [
    ("tags", .list (tags.map fun tag => .ofFields [("name", .text tag)])),
    ("children", .list (texts.map ledgerScenario))])]

/-- A directory with a read-me file. -/
private def ledgerTree : FileTree where
  workingDirectory := .ofString "/"
  nodes := ⟨[(["desk"], .directory), (["desk", "README.md"], .file (some "All ledgers."))]⟩

private def rates : Source :=
  ⟨.ofString "desk/rates.feature", pure (some (ledgerDocument ["@due"] ["3 rates"]))⟩

private def ledger : Source :=
  ⟨.ofString "desk/ledger.feature", pure (some (ledgerDocument [] ["a debt", "a loan"]))⟩

/-- The later document of the ledger has one scenario less. -/
private def settledLedger : Source :=
  ⟨.ofString "desk/ledger.feature", pure (some (ledgerDocument [] ["a debt"]))⟩

private def buildLedgers (sources : List Source) : Job Batch :=
  build ledgerTree {} none sources

/-- The document that a source gives. -/
private def ledgerOf (source : Source) : Value :=
  match (source.document.run { store := {} }).1 with
  | .ok (some content) => content
  | _ => .null

/-- The ledger is built again beside the rates. -/
theorem rebuild_clean_iff_ledger : ∃ batch w batch' w' batch'' w'',
    (buildLedgers ([rates] ++ ledger :: [])).run { store := {} } = (.ok batch, w) ∧
    (w.store.featureOf? (knownAs none ledger.path).toString).isSome ∧
    (buildLedgers [settledLedger]).run w = (.ok batch', w') ∧
    (buildLedgers ([rates] ++ (if batch'.features.isEmpty then ledger else settledLedger) :: [])).run
      { store := {} } = (.ok batch'', w'') ∧
    ((∃ ρ, Agree .unordered ρ w'.store w''.store) ∧ (batch'.features = [] →
        ∀ id, w'.store.catalog.find? id = w.store.catalog.find? id) ↔
      Replaces (knownAs none ledger.path).toString (buildLone ledgerTree {} none ledgerOf ledger).2
        (buildLone ledgerTree {} none ledgerOf settledLedger)) := by
  have hcases {P : Source → Prop} (hrates : P rates) (hledger : P ledger)
      (hsettled : P settledLedger) : ∀ x ∈ settledLedger :: ([rates] ++ ledger :: []), P x := by
    simp only [List.cons_append, List.nil_append, List.forall_mem_cons]
    exact ⟨hsettled, hrates, hledger, nofun⟩
  have hgives := hcases (P := fun x => x.Gives (some (ledgerOf x)))
    (fun w => ⟨w.warnings, rfl⟩) (fun w => ⟨w.warnings, rfl⟩) (fun w => ⟨w.warnings, rfl⟩)
  have hknown : knownAs none rates.path = rates.path ∧ knownAs none ledger.path = ledger.path := by
    decide +kernel
  have hrates : PlainPath (knownAs none rates.path) := by
    rw [hknown.1]
    exact plainPath_ofString (by decide) (by decide)
  have hledger : PlainPath (knownAs none ledger.path) := by
    rw [hknown.2]
    exact plainPath_ofString (by decide) (by decide)
  have hplain := hcases (P := fun x => PlainPath (knownAs none x.path)) hrates hledger hledger
  have hparent : ledger.path.parent = rates.path.parent := by decide +kernel
  let readMes (_ : List String) : ReadMe := readMeOf ledgerTree rates.path
  have hbeside : readMeOf ledgerTree ledger.path = readMeOf ledgerTree rates.path := by
    simp only [readMeOf, hparent]
  have hreadMe := hcases
    (P := fun x => readMeOf ledgerTree x.path = readMes (knownAs none x.path).parent.names)
    rfl hbeside hbeside
  have hmild := hcases (P := fun x => (buildLone ledgerTree {} none ledgerOf x).1.isOk = true)
    (by decide +kernel) (by decide +kernel) (by decide +kernel)
  have hlocal : ∀ x ∈ settledLedger :: ([rates] ++ ledger :: []), ∀ fault s,
      buildLone ledgerTree {} none ledgerOf x = (.error fault, s) → isLocal fault := by
    intro x hx fault s hrun
    have hok := hmild x hx
    rw [hrun] at hok
    cases hok
  have hbuilt : ((buildLedgers [rates, ledger]).run { store := {} }).1.isOk = true ∧
      (((buildLedgers [rates, ledger]).run { store := {} }).2.store.featureOf?
        (knownAs none ledger.path).toString).isSome = true := by decide +kernel
  rcases hrun : (buildLedgers [rates, ledger]).run { store := {} } with ⟨fault | batch, w⟩
  · rw [hrun] at hbuilt
    cases hbuilt.1
  · rw [hrun] at hbuilt
    obtain ⟨batch', w', batch'', w'', hagain, hlast, hclean⟩ :=
      rebuild_clean_iff hgives hplain hreadMe hlocal (by decide +kernel) rfl hrun
        hbuilt.2
    exact ⟨batch, w, batch', w', batch'', w'', hrun, hbuilt.2, hagain, hlast, hclean⟩

/-- **A document that is built twice is counted twice**: its tag has told two scenarios after the
second time, and one after the first. -/
theorem rebuilt_counted_again : ∃ batch w batch' w',
    (buildLedgers [rates]).run { store := {} } = (.ok batch, w) ∧
    (buildLedgers [rates]).run w = (.ok batch', w') ∧ batch'.features ≠ [] ∧
    (w.store.tagAt "tag:@due").map Tag.totalScenarios = some 1 ∧
    (w'.store.tagAt "tag:@due").map Tag.totalScenarios = some 2 ∧
    ∀ ρ, ¬ Agree .unordered ρ w'.store w.store := by
  have hfirst : ((buildLedgers [rates]).run { store := {} }).1.isOk = true ∧
      (((buildLedgers [rates]).run { store := {} }).2.store.tagAt "tag:@due").map
        Tag.totalScenarios = some 1 := by decide +kernel
  have hsecond : ((buildLedgers [rates]).run ((buildLedgers [rates]).run
        { store := {} }).2).1.toOption.map (fun batch => batch.features.isEmpty) = some false ∧
      (((buildLedgers [rates]).run ((buildLedgers [rates]).run
        { store := {} }).2).2.store.tagAt "tag:@due").map Tag.totalScenarios = some 2 := by
    decide +kernel
  generalize (buildLedgers [rates]).run { store := {} } = once at hfirst hsecond
  obtain ⟨fault | batch, w⟩ := once
  · cases hfirst.1
  dsimp only at hfirst hsecond
  generalize htwice : (buildLedgers [rates]).run w = twice at hsecond
  obtain ⟨fault | batch', w'⟩ := twice
  · cases hsecond.1
  obtain ⟨-, hone⟩ := hfirst
  obtain ⟨hbuilt, htwo⟩ := hsecond
  refine ⟨batch, w, batch', w', rfl, htwice, fun hempty => ?_, hone, htwo, fun ρ hagree => ?_⟩
  · rw [Except.toOption, Option.map_some, hempty] at hbuilt
    cases hbuilt
  · have hrel := hagree.tagAt "tag:@due"
    generalize w'.store.tagAt "tag:@due" = found', w.store.tagAt "tag:@due" = found at *
    cases hrel with
    | none => cases hone
    | some halike =>
        rw [Option.map_some, halike.totalScenarios] at htwo
        rw [Option.map_some, htwo] at hone
        cases hone

end Batch

end StepTrace
