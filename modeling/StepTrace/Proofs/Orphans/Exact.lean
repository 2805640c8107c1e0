import StepTrace.Proofs.Orphans.Replaced
import StepTrace.Proofs.Tags.Exact

/-!
# Orphans

A registered part of a feature is an orphan if no registered feature holds it.  After a batch that
comes to its end the only orphans are steps of backgrounds that were replaced by shorter ones, and
all of these are: which identifiers they have can be read off the documents (`Populated`,
`Batch.build_populated`).  So there are none if in each document the last background has as many
steps as any other; in particular if it has one background.

What holds of a document by the time it is built (`Store.Attributed`) is carried through the batch:
whatever comes later keeps what was registered, and a document that is undone leaves nothing
(`Explained.outcome`).
-/

namespace StepTrace

open Store

/-- One of the backgrounds of a document has a step after its first `n`, and the last has not. -/
def Value.Leaves (content : Value) (n : Nat) : Prop :=
  (∃ count ∈ content.backgroundCounts, n < count) ∧
    ∀ last ∈ content.backgroundCounts.getLast?, last ≤ n

namespace Store

/-- What the registered features hold. -/
def held (s : Store) : List Entry :=
  s.allFeatures.flatMap s.featureParts

/-- Which parts of features are registered, and which of them no feature holds. -/
structure Populated (documents : Batch.Built) (s : Store) : Prop where
  /-- All that registered features hold is registered. -/
  registered : ∀ e ∈ s.held, s.catalog.find? (s.idOf e) = some e
  /-- Registered scenarios, outlines and tables are held. -/
  whole : ∀ id e, s.catalog.find? id = some e → e.kind.IsPart → e.kind ≠ .step → e ∈ s.held
  /-- A step that is held is listed by what it names as its owner. -/
  listed : ∀ x, .step x ∈ s.held → ∃ c : Container,
    s.catalog.find? (s.get x).scenarioId = some c.entry ∧ x ∈ Build.containerSteps s c
  /-- The orphans are steps of backgrounds that were replaced by shorter ones, and each of these. -/
  orphans : ∀ id, (∃ x, s.catalog.find? id = some (.step x) ∧ .step x ∉ s.held) ↔
    ∃ d ∈ documents, ∃ n, d.2.content.Leaves n ∧ id = backgroundStepId d.2.file.toString n
  /-- An orphan names the background of a feature, which does not list it. -/
  astray : ∀ id x, s.catalog.find? id = some (.step x) → .step x ∉ s.held →
    ∃ d ∈ documents, ∃ b, (s.get d.1).background = some b ∧
      s.catalog.find? (s.get x).scenarioId = some (.scenario b) ∧ x ∉ (s.get b).steps
  /-- There are none if and only if no last background is shorter than another one. -/
  orphanless : (∀ id e, s.catalog.find? id = some e → e.kind.IsPart → e ∈ s.held) ↔
    ∀ d ∈ documents, ∀ count ∈ d.2.content.backgroundCounts,
      ∀ last ∈ d.2.content.backgroundCounts.getLast?, count ≤ last

variable {s s' : Store} {r : Ref Feature} {file owner : String} {n : Nat}

/-! ## Identifiers of steps of backgrounds -/

theorem under_backgroundStepId (file : String) (n : Nat) :
    Under (part file backgroundLabel) (backgroundStepId file n) :=
  under_part _ (isLabel_step _)

theorem backgroundStepId_injective (file : String) : Function.Injective (backgroundStepId file) := by
  intro m n h
  have hunder : Under (part (part file backgroundLabel) (stepLabel (n + 1)))
      (backgroundStepId file m) := h ▸ .refl _
  have hlabel := eq_of_under_part (isLabel_step _) (isLabel_step _) (.refl _) hunder
  exact Nat.succ.inj (stepLabel_injective hlabel)

/-- A feature holds nothing under the identifier of a step that its background has not got. -/
theorem FeaturePlaced.not_mem (h : s.FeaturePlaced r file)
    (hbackground : ∀ b, (s.get r).background = some b → (s.get b).steps.length ≤ n) {e : Entry}
    (hid : s.idOf e = backgroundStepId file n) : e ∉ s.featureParts r := by
  intro he
  rcases mem_featureParts.mp he with rfl | ⟨b, hb, he⟩ | ⟨c, hc, he⟩
  · rw [h.placed.idOf] at hid
    have hunder := (under_backgroundStepId file n)
    rw [← hid] at hunder
    exact not_under_part_self _ _ hunder
  · have hplaced := h.background b hb
    rcases mem_scenarioParts.mp he with rfl | ⟨x, hx, rfl⟩
    · rw [hplaced.placed.idOf] at hid
      exact part_ne _ _ hid.symm
    · obtain ⟨m, hm⟩ := List.mem_iff_getElem?.mp hx
      obtain ⟨hstep, -⟩ := hplaced.steps m x hm
      have hsame : m = n := backgroundStepId_injective file (hstep.idOf.symm.trans hid)
      have hlt := (List.getElem?_eq_some_iff.mp hm).1
      have hle := hbackground b hb
      omega
  · obtain ⟨i, hi⟩ := h.containers.exists_of_mem hc
    have hunder := hi.formed.spread.inside e he
    rw [hid] at hunder
    exact backgroundLabel_ne_scenarioLabel _ (eq_of_under_part isLabel_background
      (isLabel_scenario _) (under_backgroundStepId file n) hunder)

/-- A feature that has been built keeps its parts. -/
theorem Kept.featureParts (h : Kept s s') (hr : s.FeaturePlaced r file) :
    s'.featureParts r = s.featureParts r := by
  refine featureParts_congr fun e he _ => ?_
  have hhas := (hr.placed_parts e he).has
  have hkind := kind_of_mem_featureParts he
  refine h.content hhas (fun htag => ?_) fun hspace => ?_
  · rw [htag] at hkind
    rcases hkind with hkind | hkind <;> cases hkind
  · rw [hspace] at hkind
    rcases hkind with hkind | hkind <;> cases hkind

/-! ## Steps that are held -/

theorem StepsPlaced.listed {c : Container} (h : s.StepsPlaced owner (Build.containerSteps s c))
    (hc : s.catalog.find? owner = some c.entry) {x : Ref Step}
    (hx : x ∈ Build.containerSteps s c) : ∃ c : Container,
      s.catalog.find? (s.get x).scenarioId = some c.entry ∧ x ∈ Build.containerSteps s c := by
  obtain ⟨i, -, howner⟩ := h.exists_of_mem hx
  exact ⟨c, howner ▸ hc, hx⟩

theorem ScenarioPlaced.listed {outline : Option String} {y : Ref Scenario}
    (h : s.ScenarioPlaced file outline y owner) {x : Ref Step} (hx : .step x ∈ s.scenarioParts y) :
    ∃ c : Container, s.catalog.find? (s.get x).scenarioId = some c.entry ∧
      x ∈ Build.containerSteps s c := by
  rcases mem_scenarioParts.mp hx with hx | ⟨_, hx, ⟨⟩⟩
  · cases hx
  · exact StepsPlaced.listed (c := .scenario y) h.steps h.placed.find? hx

/-- A step of a placed feature is listed by what it names as its owner. -/
theorem FeaturePlaced.listed (h : s.FeaturePlaced r file) {x : Ref Step}
    (hx : .step x ∈ s.featureParts r) : ∃ c : Container,
      s.catalog.find? (s.get x).scenarioId = some c.entry ∧ x ∈ Build.containerSteps s c := by
  rcases mem_featureParts.mp hx with hx | ⟨b, hb, hx⟩ | ⟨c, hc, hx⟩
  · cases hx
  · exact (h.background b hb).listed hx
  · obtain ⟨i, hi⟩ := h.containers.exists_of_mem hc
    cases c with
    | scenario y => exact ScenarioPlaced.listed hi hx
    | outline o =>
        have ho : s.OutlinePlaced file o _ := hi
        rcases mem_outlineParts.mp hx with hx | ⟨_, hx, ⟨⟩⟩ | ⟨_, -, ⟨⟩⟩ | ⟨y, hy, hx⟩
        · cases hx
        · exact StepsPlaced.listed (c := .outline o) ho.steps ho.placed.find? hx
        · obtain ⟨j, hj⟩ := ho.rows.exists_of_mem hy
          exact hj.listed hx

end Store

namespace Batch

variable {names names' : List String} {built : Built} {s s' : Store}

/-! ## What a batch has built so far -/

/-- The part belongs to the feature of the document, or was left by a background of it. -/
def Explains (s : Store) (p : Ref Feature × BuildCall) (e : Entry) : Prop :=
  e ∈ s.featureParts p.1 ∨
    ∃ x, e = .step x ∧ s.LeftOver p.2.file.toString p.2.content.backgroundCounts x

/-- The feature is that of the document, as far as its background goes. -/
structure Represents (s : Store) (p : Ref Feature × BuildCall) : Prop where
  feature : s.catalog.find? p.2.file.toString = some (.feature p.1)
  background : ((s.get p.1).background.map fun b => (s.get b).steps.length) =
    p.2.content.backgroundCounts.getLast?
  registered : ∀ count ∈ p.2.content.backgroundCounts, ∀ n < count,
    backgroundStepId p.2.file.toString n ∈ s.catalog.ids

/-- The features are those of the documents, which explain all parts that are registered. -/
structure Explained (built : Built) (s : Store) : Prop where
  documents : ∀ p ∈ built, Represents s p
  parts : ∀ ⦃id e⦄, s.catalog.find? id = some e → e.kind.IsPart → ∃ p ∈ built, Explains s p e

theorem explained_empty : Explained [] {} :=
  ⟨nofun, nofun⟩

section

variable {p : Ref Feature × BuildCall}

theorem Represents.placed (h : Represents s p) (hsound : Sound names s) :
    s.FeaturePlaced p.1 p.2.file.toString :=
  hsound.orderly.placed h.feature

theorem Represents.kept (h : Represents s p) (hsound : Sound names s) (hsound' : Sound names' s')
    (hkept : Kept s s') : Represents s' p := by
  have hplaced := h.placed hsound
  refine ⟨hkept.find? hsound'.orderly.consistent h.feature, ?_, fun count hcount n hn =>
    hkept.mem_ids hsound'.orderly.consistent (h.registered count hcount n hn)⟩
  rw [hkept.steady.get_feature hplaced.placed.has, ← h.background]
  refine Option.map_congr fun b hb => ?_
  rw [hkept.steady.get_scenario (hplaced.background b hb).placed.has]

theorem Explains.kept {e : Entry} (h : Explains s p e)
    (hplaced : s.FeaturePlaced p.1 p.2.file.toString) (he : s.Has e) (hkept : Kept s s') :
    Explains s' p e := by
  refine Or.imp (fun he => ?_) ?_ h
  · rwa [hkept.featureParts hplaced]
  · rintro ⟨x, rfl, hx⟩
    exact ⟨x, rfl, hx.mono (Content.step.inj (hkept.content he nofun nofun)) (List.Subset.refl _)⟩

/-- **What has been built in between explains what has come in.** -/
theorem Explained.more {more : Built} (h : Explained built s) (hsound : Sound names s)
    (hsound' : Sound names' s') (hkept : Kept s s') (hmore : ∀ p ∈ more, Represents s' p)
    (hadmits : Admits (fun e => ∃ p ∈ more, Explains s' p e) s s') :
    Explained (built ++ more) s' := by
  constructor
  · intro p hp
    rcases List.mem_append.mp hp with hp | hp
    · exact (h.documents p hp).kept hsound hsound' hkept
    · exact hmore p hp
  · intro id e he hkind
    rcases hadmits he hkind with hold | ⟨p, hp, hexplains⟩
    · obtain ⟨p, hp, hexplains⟩ := h.parts hold hkind
      exact ⟨p, List.mem_append_left _ hp, hexplains.kept ((h.documents p hp).placed hsound)
        (hsound.orderly.labelled hold).has hkept⟩
    · exact ⟨p, List.mem_append_right _ hp, hexplains⟩

end

variable {call : BuildCall} {result : Option (Ref Feature)}

/-- **One document keeps the explanations.** -/
theorem Explained.outcome (h : Explained built s) (hsound : Sound names s)
    (hfile : PlainPath call.file) (hnew : call.file.toString ∉ names)
    (hout : Outcome call s result s') :
    Explained (built ++ result.toList.map (·, call)) s' := by
  obtain ⟨hsound', hkept, hgains⟩ := hsound.outcome hfile hnew hout
  have hbuilt := (Build.feature_built hsound.orderly.toSorted (fun _ => PlainName.featureFile)
    hfile.toFeaturePath call.content call.excluded call.readMe).2
  have hsite : ∀ {s₁}, Build.SiteBuilt s s₁ → Admits (fun _ => False) s s₁ := fun hsite =>
    .of_grows hsite.grows fun id e he hkind => by
      rw [he.2.1] at hkind
      exact hkind
  cases hout with
  | @built r _ hrun =>
      rw [hrun] at hbuilt
      obtain ⟨hdone, s₀, s₁, s₂, hgrown, hassembled⟩ := hbuilt _ rfl
      have hattributed := hassembled.attributed (hsound.orderly.labelled.grows hgrown.grows)
      have hid : (s'.get r).id = call.file.toString := hdone.placed.placed.idOf
      have hrepresents : Represents s' (r, call) := by
        refine ⟨hdone.placed.placed.find?, hattributed.background, ?_⟩
        rw [← hid]
        exact hattributed.registered
      refine h.more hsound hsound' hkept (fun p hp => ?_) ?_
      · rw [List.mem_singleton.mp hp]
        exact hrepresents
      · refine ((hsite hgrown).mono fun _ => False.elim).trans (hattributed.admits.mono fun e he => ?_)
        rw [hid] at he
        exact ⟨(r, call), List.mem_singleton_self _, he⟩
  | passed hrun =>
      rw [hrun] at hbuilt
      exact h.more hsound hsound' hkept nofun ((hsite (hbuilt _ rfl)).mono fun _ => False.elim)
  | undone hrestored =>
      refine h.more hsound hsound' hkept nofun fun id e he _ => Or.inl ?_
      rwa [← hrestored.find?]

/-- **A batch keeps the explanations.** -/
theorem Explained.outcomes {calls : List BuildCall} {more : Built} (h : Explained built s)
    (hsound : Sound names s) (hfresh : Fresh names calls) (hall : Outcomes calls s more s') :
    Explained (built ++ more) s' :=
  Outcomes.keeps (fun hsound hfile hnew hout h => h.outcome hsound hfile hnew hout) h hsound hfresh
    hall

/-! ## Orphans of a batch -/

section

variable (h : Explained built s) (hsound : Sound names s)
  (hall : ∀ r, r ∈ s.allFeatures ↔ ∃ p ∈ built, p.1 = r)
include h hsound hall

omit hsound in
/-- What a document explains and no feature holds was left by a background of the document. -/
theorem Explained.leftOver {id : String} {e : Entry} (he : s.catalog.find? id = some e)
    (hkind : e.kind.IsPart) (hheld : e ∉ s.held) : ∃ p ∈ built, ∃ x, e = .step x ∧
      s.LeftOver p.2.file.toString p.2.content.backgroundCounts x := by
  obtain ⟨p, hp, hpart | hleft⟩ := h.parts he hkind
  · exact absurd (List.mem_flatMap.mpr ⟨p.1, (hall p.1).mpr ⟨p, hp, rfl⟩, hpart⟩) hheld
  · exact ⟨p, hp, hleft⟩

/-- The number of such a step is one that the document leaves. -/
theorem Explained.leaves {id : String} {x : Ref Step} (hx : s.catalog.find? id = some (.step x))
    (hheld : .step x ∉ s.held) {p : Ref Feature × BuildCall} (hp : p ∈ built)
    (hleft : s.LeftOver p.2.file.toString p.2.content.backgroundCounts x) :
    ∃ n, p.2.content.Leaves n ∧ id = backgroundStepId p.2.file.toString n := by
  obtain ⟨n, hid, hcount⟩ := hleft.id
  have hlabel : id = backgroundStepId p.2.file.toString n :=
    (hsound.orderly.labelled hx).idOf.symm.trans hid
  refine ⟨n, ⟨hcount, fun last hlast => ?_⟩, hlabel⟩
  -- otherwise the background of the feature has a step of this number, under the same identifier
  by_contra hlt
  have hdocument := h.documents p hp
  rw [Option.mem_def, ← hdocument.background, Option.map_eq_some_iff] at hlast
  obtain ⟨b, hb, rfl⟩ := hlast
  have hplaced := (hdocument.placed hsound).background b hb
  have hstep := (hplaced.steps n _ (List.getElem?_eq_getElem (not_le.mp hlt))).1.find?
  rw [show part _ _ = backgroundStepId p.2.file.toString n from rfl, ← hlabel, hx] at hstep
  cases hstep
  refine hheld (List.mem_flatMap.mpr ⟨p.1, (hall p.1).mpr ⟨p, hp, rfl⟩, ?_⟩)
  exact mem_featureParts.mpr (.inr (.inl ⟨b, hb, mem_scenarioParts.mpr
    (.inr ⟨_, List.getElem_mem _, rfl⟩)⟩))

/-- **Each step that a document leaves is registered and held by no feature.** -/
theorem Explained.orphan {p : Ref Feature × BuildCall} (hp : p ∈ built) {n : Nat}
    (hleaves : p.2.content.Leaves n) : ∃ x,
      s.catalog.find? (backgroundStepId p.2.file.toString n) = some (.step x) ∧
      .step x ∉ s.held := by
  have hdocument := h.documents p hp
  have hplaced := hdocument.placed hsound
  have hfile : PlainName p.2.file.toString := hsound.orderly.fits hdocument.feature
  obtain ⟨⟨count, hcount, hn⟩, hlast⟩ := hleaves
  obtain ⟨e, he⟩ := Catalog.mem_ids_iff.mp (hdocument.registered count hcount n hn)
  have hid : s.idOf e = backgroundStepId p.2.file.toString n := (hsound.orderly.labelled he).idOf
  have hbelow := under_backgroundStepId p.2.file.toString n
  have hunder := hbelow.of_part isLabel_background
  have hkind : e.kind.IsPart := by
    refine Pure.isPart_below hsound.orderly.toSorted hfile hunder (fun heq => ?_) he
    rw [heq] at hbelow
    exact not_under_part_self _ _ hbelow
  have hheld : e ∉ s.held := by
    intro hmem
    obtain ⟨r, hr, hmem⟩ := List.mem_flatMap.mp hmem
    obtain ⟨q, hq, rfl⟩ := (hall r).mp hr
    -- only the feature of the file could hold it, and its background has no such step
    have hq' := h.documents q hq
    have hinside := (hq'.placed hsound).formed.spread.inside e hmem
    rw [hid] at hinside
    have hname : PlainName q.2.file.toString := hsound.orderly.fits hq'.feature
    have hsame := hname.featureFile.eq_of_under hfile.featureFile hinside hunder
    have hfeature := hq'.feature
    rw [hsame, hdocument.feature] at hfeature
    rw [← Entry.feature.inj (Option.some.inj hfeature)] at hmem
    refine hplaced.not_mem (fun b hb => hlast _ ?_) hid hmem
    rw [← hdocument.background, hb]
    rfl
  obtain ⟨-, -, x, rfl, -⟩ := h.leftOver hall he hkind hheld
  exact ⟨x, he, hheld⟩

/-- The orphans have the identifiers that the documents leave. -/
theorem Explained.orphans (id : String) :
    (∃ x, s.catalog.find? id = some (.step x) ∧ .step x ∉ s.held) ↔
      ∃ d ∈ built, ∃ n, d.2.content.Leaves n ∧ id = backgroundStepId d.2.file.toString n := by
  constructor
  · rintro ⟨x, hx, hheld⟩
    obtain ⟨p, hp, _, ⟨⟩, hleft⟩ := h.leftOver hall hx trivial hheld
    obtain ⟨n, hleaves⟩ := h.leaves hsound hall hx hheld hp hleft
    exact ⟨p, hp, n, hleaves⟩
  · rintro ⟨p, hp, n, hleaves, rfl⟩
    exact h.orphan hsound hall hp hleaves

omit hsound in
theorem Explained.whole {id : String} {e : Entry} (he : s.catalog.find? id = some e)
    (hkind : e.kind.IsPart) (hstep : e.kind ≠ .step) : e ∈ s.held := by
  by_contra hheld
  obtain ⟨-, -, x, rfl, -⟩ := h.leftOver hall he hkind hheld
  exact hstep rfl

/-- An orphan names a background that a feature has, so if this listed it, it were held. -/
theorem Explained.astray {id : String} {x : Ref Step} (hx : s.catalog.find? id = some (.step x))
    (hheld : .step x ∉ s.held) : ∃ d ∈ built, ∃ b, (s.get d.1).background = some b ∧
      s.catalog.find? (s.get x).scenarioId = some (.scenario b) ∧ x ∉ (s.get b).steps := by
  obtain ⟨p, hp, _, ⟨⟩, hleft⟩ := h.leftOver hall hx trivial hheld
  obtain ⟨n, -, count, hcount, -⟩ := hleft.id
  have hdocument := h.documents p hp
  have hlast := List.getLast?_eq_getLast_of_ne_nil (List.ne_nil_of_mem hcount)
  rw [← hdocument.background, Option.map_eq_some_iff] at hlast
  obtain ⟨b, hb, -⟩ := hlast
  refine ⟨p, hp, b, hb, ?_, fun hmem => hheld ?_⟩
  · rw [hleft.scenarioId]
    exact ((hdocument.placed hsound).background b hb).placed.find?
  · refine List.mem_flatMap.mpr ⟨p.1, (hall p.1).mpr ⟨p, hp, rfl⟩, ?_⟩
    exact mem_featureParts.mpr (.inr (.inl ⟨b, hb, mem_scenarioParts.mpr (.inr ⟨x, hmem, rfl⟩)⟩))

/-- There are no orphans just if no document leaves a step. -/
theorem Explained.orphanless : (∀ id e, s.catalog.find? id = some e → e.kind.IsPart → e ∈ s.held) ↔
    ∀ d ∈ built, ∀ count ∈ d.2.content.backgroundCounts,
      ∀ last ∈ d.2.content.backgroundCounts.getLast?, count ≤ last := by
  constructor
  · intro hnone d hd count hcount last hlast
    by_contra hlt
    obtain ⟨x, hx, hheld⟩ := h.orphan hsound hall hd (n := last)
      ⟨⟨count, hcount, not_le.mp hlt⟩, fun last' hlast' => (Option.mem_unique hlast' hlast).le⟩
    exact hheld (hnone _ _ hx trivial)
  · intro hcounts id e he hkind
    by_contra hheld
    obtain ⟨p, hp, x, rfl, hleft⟩ := h.leftOver hall he hkind hheld
    obtain ⟨n, ⟨⟨count, hcount, hn⟩, hleaves⟩, -⟩ := h.leaves hsound hall he hheld hp hleft
    have hlast := List.getLast?_eq_getLast_of_ne_nil (List.ne_nil_of_mem hcount)
    exact absurd (hn.trans_le (hcounts p hp count hcount _ hlast)) (hleaves _ hlast).not_gt

/-- **Registries that are explained by documents are populated as these say.** -/
theorem Explained.populated : Populated built s where
  registered e he := ((hsound.orderly.parts fun _ => PlainName.featureFile).1 e he).find?
  whole _ _ := h.whole hall
  listed x hx := by
    obtain ⟨r, hr, hx⟩ := List.mem_flatMap.mp hx
    obtain ⟨p, hp, rfl⟩ := (hall r).mp hr
    exact ((h.documents p hp).placed hsound).listed hx
  orphans := h.orphans hsound hall
  astray _ _ := h.astray hsound hall
  orphanless := h.orphanless hsound hall

end

/-- **What is registered after a batch, and the orphans among it**, whatever the batch has excluded,
passed over or undone. -/
theorem build_populated {tree : FileTree} {settings : Settings} {base : Option Path}
    {sources : List Source} {contents : List (Option Value)} {warnings : List Warning}
    {batch : Batch} {w : Work} (hreads : List.Forall₂ Source.Reads sources contents)
    (hplain : ∀ source ∈ sources, PlainPath (knownAs base source.path))
    (hdistinct : (sources.map fun source => (knownAs base source.path).toString).Nodup)
    (hrun : (build tree settings base sources).run { store := {}, warnings } = (.ok batch, w)) :
    ∃ documents : Built, documents.map (·.1) = batch.features ∧
      (documents.map (·.2)).Sublist (List.zipWith (callFor tree settings base) sources contents) ∧
      (∀ d ∈ documents, w.store.catalog.find? d.2.file.toString = some (.feature d.1)) ∧
      Populated documents w.store := by
  have hfresh : Fresh [] (List.zipWith (callFor tree settings base) sources contents) :=
    fresh_calls hreads hplain hdistinct
  obtain ⟨built, hall, hfeatures⟩ := build_outcomes hreads sound_empty hfresh hrun
  obtain ⟨hsound, -⟩ := sound_empty.outcomes hfresh hall
  have hexplained : Explained built w.store := explained_empty.outcomes sound_empty hfresh hall
  refine ⟨built, hfeatures.symm, hall.sublist, fun d hd => (hexplained.documents d hd).feature,
    hexplained.populated hsound fun r => ?_⟩
  rw [← (hall.perm_allFeatures hfresh).mem_iff, List.mem_map]

private def givenOf (text : String) : Value :=
  .ofFields [("keyword", .text "Given "), ("text", .text text)]

private def groundOf (texts : List String) : Value :=
  .ofFields [("background", .ofFields [("steps", .list (texts.map givenOf))])]

/-- The rule has a background of its own, with a step less than that of the feature. -/
private def bill : Value :=
  .ofFields [("feature", .ofFields [("children", .list [groundOf ["a till", "a float"],
    .ofFields [("rule", .ofFields [("children", .list [groundOf ["a card"], .ofFields
      [("scenario", .ofFields [("steps", .list [givenOf "a sale"])])]])])]])])]

/-- One document has this rule, and the other only the background that is common to all rules. -/
private def bills : List Source :=
  [⟨.ofString "shop/bill.feature", pure (some bill)⟩,
    ⟨.ofString "shop/cash.feature", pure (some (.ofFields [("feature", .ofFields
      [("children", .list [groundOf ["a till", "a float"]])])]))⟩]

private def buildBills : Job Batch :=
  build { workingDirectory := .ofString "/" } {} none bills

private theorem plainPath_bills :
    ∀ source ∈ bills, PlainPath (knownAs none source.path) := by
  have hknown : bills.map (fun source => knownAs none source.path) =
      [.ofString "shop/bill.feature", .ofString "shop/cash.feature"] := by decide +kernel
  intro source hsource
  have hmem := List.mem_map_of_mem (f := fun source => knownAs none source.path) hsource
  simp only [hknown, List.mem_cons, List.not_mem_nil, or_false] at hmem
  rcases hmem with h | h
  all_goals
    rw [h]
    exact plainPath_ofString (by decide) (by decide)

/-- Both files are built, and the second step of the first background is still registered. -/
theorem build_populated_bills : ∃ batch w documents,
    buildBills.run { store := {} } = (.ok batch, w) ∧ batch.features = [⟨0⟩, ⟨1⟩] ∧
      "shop/bill.feature:background:step_2" ∈ w.store.catalog.ids ∧ Populated documents w.store := by
  have hpure (path : Path) (content : Option Value) :
      Source.Reads ⟨path, pure content⟩ content := by
    rintro w c w' ⟨⟩
    exact ⟨rfl, rfl⟩
  have hreads : List.Forall₂ Source.Reads bills _ := .cons (hpure _ _) (.cons (hpure _ _) .nil)
  have hresult : (buildBills.run { store := {} }).1.toOption.map (·.features) =
      some [⟨0⟩, ⟨1⟩] := by decide +kernel
  have hid : "shop/bill.feature:background:step_2" ∈
      (buildBills.run { store := {} }).2.store.catalog.ids := by decide +kernel
  have hpopulated (batch : Batch) (w : Work)
      (hrun : buildBills.run { store := {} } = (.ok batch, w)) :=
    build_populated hreads plainPath_bills (by decide +kernel) hrun
  generalize buildBills.run { store := {} } = left at hresult hid hpopulated
  obtain ⟨fault | batch, w⟩ := left
  · cases hresult
  · obtain ⟨documents, -, -, -, hall⟩ := hpopulated batch w rfl
    exact ⟨batch, w, documents, rfl, Option.some.inj hresult, hid, hall⟩

/-- **A batch can leave an orphan**: the surplus step of the background that was replaced is
registered, and what it names as its owner is registered and does not list it. -/
theorem surplus_background_step : ∃ batch w x b,
    buildBills.run { store := {} } = (.ok batch, w) ∧
      (∀ source ∈ bills, PlainPath (knownAs none source.path)) ∧
      (bills.map fun source => (knownAs none source.path).toString).Nodup ∧
      w.store.catalog.find? "shop/bill.feature:background:step_2" = some (.step x) ∧
      .step x ∉ w.store.held ∧
      w.store.catalog.find? (w.store.get x).scenarioId = some (.scenario b) ∧
      x ∉ (w.store.get b).steps := by
  have hresult : (buildBills.run { store := {} }).1.isOk = true := by decide +kernel
  have hrest : (buildBills.run { store := {} }).2.store.catalog.find?
        "shop/bill.feature:background:step_2" = some (.step ⟨1⟩) ∧
      .step ⟨1⟩ ∉ (buildBills.run { store := {} }).2.store.held ∧
      (buildBills.run { store := {} }).2.store.catalog.find?
        ((buildBills.run { store := {} }).2.store.get (⟨1⟩ : Ref Step)).scenarioId =
          some (.scenario ⟨1⟩) ∧
      ⟨1⟩ ∉ ((buildBills.run { store := {} }).2.store.get (⟨1⟩ : Ref Scenario)).steps := by
    decide +kernel
  generalize buildBills.run { store := {} } = left at hresult hrest
  obtain ⟨fault | batch, w⟩ := left
  · cases hresult
  · exact ⟨batch, w, ⟨1⟩, ⟨1⟩, rfl, plainPath_bills, by decide +kernel, hrest⟩

end Batch

end StepTrace
