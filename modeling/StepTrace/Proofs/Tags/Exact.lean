import Mathlib.Algebra.BigOperators.Ring.Finset
import Mathlib.Data.List.Flatten
import StepTrace.Proofs.Tags.Accounts

/-!
# Exact tags

After a batch that comes to its end, whatever it has excluded, passed over or undone, the tags say
exactly what has been built (`TagsExact`): each token that was kept has one tag, which its declarers
hold; owners and holders are the same; a tag counts the scenarios that run under it, each once; and
it knows as many places as it was declared at (`Batch.build_tags_exact`).
-/

namespace StepTrace

open Store

namespace Store

/-- The only registered tag of a token. -/
structure IsOnlyTag (s : Store) (token : Value) (t : Ref Tag) : Prop where
  registered : t ∈ s.allTags
  value : (s.get t).value = token.display
  name : (s.get t).name = stripSigil token.display
  only : ∀ t' ∈ s.allTags, (s.get t').value = token.display → t' = t

/-- The record holds the tag of each token that the node declares, and no other. -/
def HoldsTagsOf (s : Store) (node : Value) (e : Entry) : Prop :=
  (∀ token ∈ node.tokens, ∃ t ∈ s.tagList e, s.IsOnlyTag token t) ∧
    ∀ t ∈ s.tagList e, ∃ token ∈ node.tokens, s.IsOnlyTag token t

/-- The tags of the outline that a scenario was exploded from. -/
def originTags (s : Store) (x : Ref Scenario) : List (Ref Tag) :=
  (((s.get x).outlineId.bind s.catalog.find?).map s.tagList).getD []

/-- The tags that a scenario of a feature runs under. -/
def scenarioTags (s : Store) (r : Ref Feature) (x : Ref Scenario) : List (Ref Tag) :=
  (s.get r).tags ++ ((s.get x).tags ++ s.originTags x)

/-- The scenarios of a feature that run under a tag. -/
def taggedScenarios (s : Store) (t : Ref Tag) (r : Ref Feature) : List (Ref Scenario) :=
  (s.executableScenarios (s.get r)).filter fun x => t ∈ s.scenarioTags r x

/-- The tags of a registry say exactly what was built from the documents. -/
structure TagsExact (documents : Batch.Built) (s : Store) : Prop where
  /-- Each token of a kept node has one tag, and what was made of the node holds it. -/
  declared : ∀ d ∈ documents, List.Forall₂ s.HoldsTagsOf d.2.blocks (s.declarers d.1)
  /-- What is registered holds registered tags, each once. -/
  held : ∀ id e, s.catalog.find? id = some e →
    (s.tagList e).Nodup ∧ ∀ t ∈ s.tagList e, t ∈ s.allTags
  /-- The owners of a tag are the identifiers of what holds it. -/
  owners : ∀ t ∈ s.allTags, (s.get t).owners.Nodup ∧
    ∀ id, id ∈ (s.get t).owners ↔ ∃ e, s.Placed e id ∧ t ∈ s.tagList e
  /-- A tag counts the scenarios of registered features that run under it. -/
  scenarios : ∀ t ∈ s.allTags,
    (s.get t).totalScenarios = (s.allFeatures.flatMap (s.taggedScenarios t)).length
  /-- No scenario is counted twice. -/
  once : ∀ t ∈ s.allTags, (s.allFeatures.flatMap (s.taggedScenarios t)).Nodup
  /-- A tag knows one place for each of its declarations. -/
  sites : ∀ t ∈ s.allTags, (s.get t).sites.length =
    (documents.flatMap fun d => d.2.tokens).countP fun token => token.display = (s.get t).value

variable {s : Store} {r : Ref Feature} {id : String}

/-- The scenarios that run are among the parts of the feature, in the same order. -/
theorem executables_sublist_featureParts (s : Store) (r : Ref Feature) :
    ((s.executableScenarios (s.get r)).map Entry.scenario).Sublist (s.featureParts r) := by
  have hrows : ∀ rows : List (Ref Scenario),
      (rows.map Entry.scenario).Sublist (rows.flatMap s.scenarioParts) := by
    intro rows
    induction rows with
    | nil => exact List.Sublist.refl _
    | cons x rows ih => exact (List.Sublist.append (List.cons_sublist_cons.mpr (List.nil_sublist _)) ih :)
  have hcontainers : ∀ cs : List Container, ((cs.flatMap (Build.runs s)).map Entry.scenario).Sublist
      (cs.flatMap s.containerParts) := by
    intro cs
    induction cs with
    | nil => exact List.Sublist.refl _
    | cons c cs ih =>
        rw [List.flatMap_cons, List.map_append, List.flatMap_cons]
        refine List.Sublist.append ?_ ih
        cases c with
        | scenario x => exact List.cons_sublist_cons.mpr (List.nil_sublist _)
        | outline o =>
            refine (hrows _).trans (List.Sublist.cons _ ?_)
            exact (List.sublist_append_right _ _).trans (List.sublist_append_right _ _)
  rw [Build.executableScenarios_eq]
  exact .cons _ ((hcontainers _).trans (List.sublist_append_right _ _))

end Store

namespace Batch

variable {names : List String} {built : Built} {s : Store}

/-- A row has no tags of its own: what has tags is what declares them. -/
theorem Accounted.row_bare (h : Accounted built s) (hsound : Sound names s) {x : Ref Scenario}
    {id outline : String} (hx : s.catalog.find? id = some (.scenario x))
    (hrow : (s.get x).outlineId = some outline) : (s.get x).tags = [] := by
  refine List.eq_nil_iff_forall_not_mem.mpr fun t ht => ?_
  obtain ⟨p, hp, hmem⟩ := h.listed hx ht
  rcases List.mem_cons.mp hmem with heq | hmem
  · cases heq
  obtain ⟨c, hc, hmem⟩ := List.mem_flatMap.mp hmem
  obtain ⟨i, hplaced⟩ := (h.placed hsound hp).containers.exists_of_mem hc
  rcases List.mem_cons.mp hmem with heq | hmem
  · cases c with
    | scenario y =>
        cases heq
        rw [show (s.get x).outlineId = none from ScenarioPlaced.outlineId hplaced] at hrow
        cases hrow
    | outline o => cases heq
  · obtain ⟨table, -, heq⟩ := List.mem_map.mp hmem
    cases heq

/-- The runs of a container are under the tags of the container and of the feature. -/
theorem Accounted.mem_scenarioTags (h : Accounted built s) (hsound : Sound names s)
    {p : Ref Feature × BuildCall} (hp : p ∈ built) {c : Container} (hc : c ∈ (s.get p.1).scenarios)
    {x : Ref Scenario} (hx : x ∈ Build.runs s c) {t : Ref Tag} :
    t ∈ s.scenarioTags p.1 x ↔ t ∈ (s.get p.1).tags ∨ t ∈ s.tagList c.entry := by
  rw [scenarioTags, List.mem_append]
  refine or_congr_right ?_
  obtain ⟨i, hplaced⟩ := (h.placed hsound hp).containers.exists_of_mem hc
  cases c with
  | scenario y =>
      obtain rfl : x = y := List.mem_singleton.mp hx
      have hnone : (s.get x).outlineId = none := ScenarioPlaced.outlineId hplaced
      rw [originTags, hnone, Option.bind_none, Option.map_none, Option.getD_none, List.append_nil]
      exact Iff.rfl
  | outline o =>
      have ho : s.OutlinePlaced p.2.file.toString o _ := hplaced
      obtain ⟨j, hrow⟩ := ho.rows.exists_of_mem hx
      rw [h.row_bare hsound hrow.placed.find? hrow.outlineId, originTags, hrow.outlineId,
        Option.bind_some, ho.placed.find?]
      rfl

/-- **The scenarios of a feature that run under a tag** are those that the tag counts. -/
theorem Accounted.length_taggedScenarios (h : Accounted built s) (hsound : Sound names s)
    {p : Ref Feature × BuildCall} (hp : p ∈ built) (t : Ref Tag) :
    ((s.taggedScenarios t p.1).length : Int) = s.carried p.1 t := by
  have hmem : ∀ c ∈ (s.get p.1).scenarios, ∀ x ∈ Build.runs s c, (t ∈ s.scenarioTags p.1 x ↔
      t ∈ (s.get p.1).tags ∨ t ∈ s.tagList c.entry) := fun c hc x hx =>
    h.mem_scenarioTags hsound hp hc hx
  rw [taggedScenarios, carried]
  split
  · rename_i ht
    rw [(hsound.counted (h.feature p hp)).total, Build.executableScenarios_eq,
      List.filter_eq_self.mpr]
    intro x hx
    obtain ⟨c, hc, hx⟩ := List.mem_flatMap.mp hx
    exact decide_eq_true ((hmem c hc x hx).mpr (Or.inl ht))
  · rename_i ht
    rw [Build.executableScenarios_eq, List.filter_flatMap, List.length_flatMap, Nat.cast_list_sum, List.map_map]
    refine congrArg List.sum (List.map_congr_left fun c hc => ?_)
    have hiff : ∀ x ∈ Build.runs s c, (t ∈ s.scenarioTags p.1 x ↔ t ∈ s.tagList c.entry) :=
      fun x hx => (hmem c hc x hx).trans (or_iff_right ht)
    rw [runsWith, Function.comp_apply]
    split
    · rename_i hc
      rw [List.filter_eq_self.mpr fun x hx => decide_eq_true ((hiff x hx).mpr hc)]
    · rename_i hc
      rw [List.filter_eq_nil_iff.mpr fun x hx hx' => hc ((hiff x hx).mp (of_decide_eq_true hx'))]
      rfl

/-- What has been built comes from different calls. -/
theorem Outcomes.sublist {calls : List BuildCall} {s s' : Store} (h : Outcomes calls s built s') :
    (built.map (·.2)).Sublist calls := by
  induction h with
  | nil => exact List.Sublist.refl _
  | @cons call calls result s s₁ s' built hout hrest ih =>
      cases result with
      | none => exact .cons _ ih
      | some r => exact List.cons_sublist_cons.mpr ih

/-- The features that have been built are those that are registered, each once. -/
theorem Accounted.perm_allFeatures (h : Accounted built s) (hsound : Sound names s)
    (hfiles : (built.map fun p => p.2.file.toString).Nodup)
    (hall : ∀ r, r ∈ s.allFeatures ↔ ∃ p ∈ built, p.1 = r) :
    (built.map (·.1)).Perm s.allFeatures := by
  have hc := hsound.orderly.consistent
  have hlabelled := hsound.orderly.labelled
  refine (List.perm_ext_iff_of_nodup ?_ ?_).mpr fun r => ?_
  · refine List.Nodup.of_map (fun r => s.idOf (.feature r)) ?_
    rw [List.map_map]
    refine (List.map_congr_left fun p hp => ?_) ▸ hfiles
    exact (hlabelled (h.feature p hp)).idOf.symm
  · exact .of_map _ (nodup_allFeatures hc hlabelled)
  · rw [hall, List.mem_map]

/-- The tag under the identifier of a token is the only one with its value. -/
theorem Accounted.isOnlyTag (h : Accounted built s) (hsound : Sound names s) {token : Value}
    {t : Ref Tag} (his : s.IsTagOf token t) : s.IsOnlyTag token t := by
  have hc := hsound.orderly.consistent
  have hlabelled := hsound.orderly.labelled
  have hvalue : (s.get t).value = token.display :=
    tagId_injective ((h.canonical his).1.symm.trans (hlabelled his).idOf)
  refine ⟨(mem_allTags hc).mpr ⟨_, his⟩, hvalue, hvalue ▸ (h.canonical his).2, fun t' ht' hvalue' => ?_⟩
  obtain ⟨id, hid⟩ := (mem_allTags hc).mp ht'
  have hsame : id = tagId token.display := by
    rw [← hvalue', ← (h.canonical hid).1]
    exact (hlabelled hid).idOf.symm
  rw [hsame] at hid
  exact Entry.tag.inj (Option.some.inj (hid.symm.trans his))

/-- **Registries whose tags account for what was built have exact tags.** -/
theorem Accounted.tagsExact (h : Accounted built s) (hsound : Sound names s)
    (hperm : (built.map (·.1)).Perm s.allFeatures) : TagsExact built s := by
  have hc := hsound.orderly.consistent
  have hlabelled := hsound.orderly.labelled
  have htag : ∀ {t}, t ∈ s.allTags ↔ ∃ id, s.catalog.find? id = some (.tag t) := mem_allTags hc
  have honly : ∀ {token t}, s.IsTagOf token t → s.IsOnlyTag token t := h.isOnlyTag hsound
  constructor
  case declared =>
    intro d hd
    refine (h.blocks d hd).imp fun node e hdeclares => ⟨fun token htoken => ?_, fun t ht => ?_⟩
    · obtain ⟨t, ht, his⟩ := hdeclares.known token htoken
      exact ⟨t, ht, honly his⟩
    · obtain ⟨token, htoken, his⟩ := hdeclares.only t ht
      exact ⟨token, htoken, honly his⟩
  case held =>
    intro id e he
    by_cases hnil : s.tagList e = []
    · simp [hnil]
    -- what has a tag declares it, and what declares tags lists none twice
    · obtain ⟨t, ht⟩ := List.exists_mem_of_ne_nil _ hnil
      obtain ⟨p, hp, hmem⟩ := h.listed he ht
      obtain ⟨node, -, hdeclares⟩ := exists_left_of_forall₂ (h.blocks p hp) hmem
      refine ⟨hdeclares.nodup, fun t ht => ?_⟩
      obtain ⟨token, -, his⟩ := hdeclares.only t ht
      exact htag.mpr ⟨_, his⟩
  case owners =>
    intro t ht
    obtain ⟨id, hid⟩ := htag.mp ht
    refine ⟨h.nodup hid, fun owner => ?_⟩
    rw [h.owners hid]
    constructor
    · rintro ⟨p, hp, e, he, rfl, hmem⟩
      exact ⟨e, (h.placed hsound hp).placed_declarers e he, hmem⟩
    · rintro ⟨e, he, hmem⟩
      obtain ⟨p, hp, hdeclarer⟩ := h.listed he.find? hmem
      exact ⟨p, hp, e, hdeclarer, he.idOf, hmem⟩
  case scenarios =>
    intro t ht
    obtain ⟨id, hid⟩ := htag.mp ht
    rw [h.total hid, List.length_flatMap, Nat.cast_list_sum, List.map_map,
      ← (hperm.map _).sum_eq, List.map_map]
    exact congrArg List.sum (List.map_congr_left fun p hp =>
      (h.length_taggedScenarios hsound hp t).symm)
  case once =>
    intro t ht
    -- the scenarios that run are parts of their features, and no part has the identifier of another
    have hparts := (hsound.orderly.parts fun _ => PlainName.featureFile).2
    refine List.Nodup.of_map Entry.scenario (List.Nodup.of_map s.idOf ?_)
    refine hparts.sublist (List.Sublist.map _ ?_)
    rw [List.map_flatMap]
    refine List.Sublist.flatMap_right _ fun r _ => ?_
    exact (List.filter_sublist.map _).trans (s.executables_sublist_featureParts r)
  case sites =>
    intro t ht
    obtain ⟨id, hid⟩ := htag.mp ht
    rw [h.sites hid]
    refine List.countP_congr fun token _ => ?_
    rw [decide_eq_true_iff, decide_eq_true_iff, ← (hlabelled hid).idOf]
    change tagId _ = (s.get t).id ↔ _
    rw [(h.canonical hid).1]
    exact ⟨tagId_injective, congrArg tagId⟩

/-- After a batch the registered features are those that it has built. -/
theorem Outcomes.perm_allFeatures {calls : List BuildCall} (hall : Outcomes calls {} built s)
    (hfresh : Fresh [] calls) : (built.map (·.1)).Perm s.allFeatures := by
  obtain ⟨hsound, hgains⟩ := sound_empty.outcomes hfresh hall
  have haccounted : Accounted built s := accounted_empty.outcomes sound_empty hfresh hall
  refine haccounted.perm_allFeatures hsound ?_ fun r => ?_
  · refine hfresh.nodup.sublist ?_
    have hfiles := hall.sublist.map fun call => call.file.toString
    rwa [List.map_map] at hfiles
  · rw [mem_allFeatures hsound.orderly.consistent]
    constructor
    · rintro ⟨id, hid⟩
      rcases (hgains id r).mp hid with hold | ⟨call, hmem, -⟩
      · cases hold
      · exact ⟨_, hmem, rfl⟩
    · rintro ⟨p, hp, rfl⟩
      exact ⟨_, haccounted.feature p hp⟩

/-- **The tags of a batch are exact**: there are documents, one for each feature that it has built,
whose declarations they tell. -/
theorem build_tags_exact {tree : FileTree} {settings : Settings} {base : Option Path}
    {sources : List Source} {contents : List (Option Value)} {warnings : List Warning}
    {batch : Batch} {w : Work} (hreads : List.Forall₂ Source.Reads sources contents)
    (hplain : ∀ source ∈ sources, PlainPath (knownAs base source.path))
    (hdistinct : (sources.map fun source => (knownAs base source.path).toString).Nodup)
    (hrun : (build tree settings base sources).run { store := {}, warnings } = (.ok batch, w)) :
    ∃ documents : Built, documents.map (·.1) = batch.features ∧
      (documents.map (·.2)).Sublist (List.zipWith (callFor tree settings base) sources contents) ∧
      (∀ d ∈ documents, w.store.catalog.find? d.2.file.toString = some (.feature d.1)) ∧
      TagsExact documents w.store := by
  have hfresh : Fresh [] (List.zipWith (callFor tree settings base) sources contents) :=
    fresh_calls hreads hplain hdistinct
  obtain ⟨built, hall, hfeatures⟩ := build_outcomes hreads sound_empty hfresh hrun
  obtain ⟨hsound, -⟩ := sound_empty.outcomes hfresh hall
  have haccounted : Accounted built w.store := accounted_empty.outcomes sound_empty hfresh hall
  exact ⟨built, hfeatures.symm, hall.sublist, haccounted.feature,
    haccounted.tagsExact hsound (hall.perm_allFeatures hfresh)⟩

private def labels (names : List String) : Value :=
  .list (names.map fun name => .ofFields [("name", .text name)])

private def lineOf (cells : List String) : Value :=
  .ofFields [("cells", .list (cells.map fun cell => .ofFields [("value", .text cell)]))]

/-- A scenario of one step. -/
private def entryOf (names : List String) (more : List (String × Value)) : Value :=
  .ofFields [("scenario", .ofFields ([("tags", labels names), ("steps", .list [
    .ofFields [("keyword", .text "Given "), ("text", .text "an entry")]])] ++ more))]

private def docketOf (names : List String) (children : List Value) : Value :=
  .ofFields [("feature", .ofFields [("tags", labels names), ("children", .list children)])]

/-- A scenario that repeats a tag, and an outline with two rows under a tag of their table. -/
private def docket : Value :=
  docketOf ["@open"] [entryOf ["@late", "@late", "@open"] [],
    entryOf ["@late"] [("examples", .list [.ofFields [("tags", labels ["@rows"]),
      ("tableHeader", lineOf ["count"]), ("tableBody", .list [lineOf ["1"], lineOf ["2"]])]])]]

private def dockets : List Source :=
  [⟨.ofString "court/docket.feature", pure (some docket)⟩,
    ⟨.ofString "court/torn.feature", pure (some (docketOf ["@late"] [.ofFields [("scenario",
      .ofFields [("tags", labels ["@torn"]), ("steps", .list [.ofFields []])])]]))⟩,
    ⟨.ofString "court/draft.feature", pure (some (docketOf [] [entryOf ["@wip"] [],
      entryOf ["@open"] []]))⟩]

private def buildDockets : Job Batch :=
  build { workingDirectory := .ofString "/" } { excludedTags := [.text "@wip"] } none dockets

/-- Two of three files are built; the tags count four, three and no scenarios. -/
theorem build_tags_exact_dockets : ∃ batch w documents,
    buildDockets.run { store := {} } = (.ok batch, w) ∧ batch.features = [⟨0⟩, ⟨2⟩] ∧
      (w.store.allTags.map fun t => ((w.store.get t).value, (w.store.get t).totalScenarios)) =
        [("@open", 4), ("@late", 3), ("@rows", 0)] ∧ TagsExact documents w.store := by
  have hpure (path : Path) (content : Option Value) :
      Source.Reads ⟨path, pure content⟩ content := by
    rintro w c w' ⟨⟩
    exact ⟨rfl, rfl⟩
  have hreads : List.Forall₂ Source.Reads dockets _ :=
    .cons (hpure _ _) (.cons (hpure _ _) (.cons (hpure _ _) .nil))
  have hknown : dockets.map (fun source => knownAs none source.path) =
      [.ofString "court/docket.feature", .ofString "court/torn.feature",
        .ofString "court/draft.feature"] := by decide +kernel
  have hplain : ∀ source ∈ dockets, PlainPath (knownAs none source.path) := by
    intro source hsource
    have hmem := List.mem_map_of_mem (f := fun source => knownAs none source.path) hsource
    simp only [hknown, List.mem_cons, List.not_mem_nil, or_false] at hmem
    rcases hmem with h | h | h
    all_goals
      rw [h]
      exact plainPath_ofString (by decide) (by decide)
  have hresult : (buildDockets.run { store := {} }).1.toOption.map (·.features) =
      some [⟨0⟩, ⟨2⟩] := by decide +kernel
  have htags : ((buildDockets.run { store := {} }).2.store.allTags.map fun t =>
      (((buildDockets.run { store := {} }).2.store.get t).value,
        ((buildDockets.run { store := {} }).2.store.get t).totalScenarios)) =
      [("@open", 4), ("@late", 3), ("@rows", 0)] := by decide +kernel
  have hexact (batch : Batch) (w : Work) (hrun : buildDockets.run { store := {} } = (.ok batch, w)) :=
    build_tags_exact hreads hplain (by decide +kernel) hrun
  generalize buildDockets.run { store := {} } = left at hresult htags hexact
  obtain ⟨fault | batch, w⟩ := left
  · cases hresult
  · obtain ⟨documents, -, -, -, htold⟩ := hexact batch w rfl
    exact ⟨batch, w, documents, rfl, Option.some.inj hresult, htags, htold⟩

end Batch

end StepTrace
