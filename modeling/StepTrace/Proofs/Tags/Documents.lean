import StepTrace.Proofs.Build.Exclusion
import StepTrace.Proofs.Registry.Builds
import StepTrace.Proofs.Tags.Containers

/-!
# Tags of a document

A document that is built declares the tags of its feature node, of the scenario nodes that are kept,
in order and through the rules, and of their tables that are kept (`Value.blocks`), on the feature and
on what comes in for them, in the same order (`Store.declarers`).  For a tag of the feature all
scenarios that run are counted, for another one those whose scenario or outline has it
(`document_declared`).  Finding the namespace of the file tells tags nothing, so the same holds of the
build of a file (`feature_declared`).
-/

namespace StepTrace

namespace Value

/-- The nodes of a document that declare tags: the feature, the kept scenarios and their kept
tables. -/
def blocks (names : List String) (content : Value) : List Value :=
  content.partOf "feature" :: (content.keptScenarios names).flatMap (blocksOf names)

end Value

namespace Store

/-- The records of a feature that can have tags: itself, its containers and their tables. -/
def declarers (s : Store) (r : Ref Feature) : List Entry :=
  .feature r :: (s.get r).scenarios.flatMap s.declarersOf

/-- The number of scenarios of a feature that count for a tag: all if the feature has it, else those
of the containers that have it. -/
def carried (s : Store) (r : Ref Feature) (t : Ref Tag) : Int :=
  if t ∈ (s.get r).tags then (s.get r).totalScenarios
  else ((s.get r).scenarios.map (s.runsWith t)).sum

end Store

namespace Build

open Store

variable {s s' : Store} {r : Ref Feature} {names : List String}

/-! ## Children -/

/-- **A background tells tags nothing.** -/
theorem background_declared (h : FeatureOpen s r) (names : List String) (site : Site) (node : Value) :
    Ensures (background site (some r) node) s (fun _ => True) fun _ s' =>
      ContainersDeclared names r [] s s' := by
  refine ensures_background trivial fun x hx => ?_
  rw [ensures_bind_change]
  have hfree : TagFree (part (s.get r).id backgroundLabel) := h.free.part isLabel_background
  set s₁ := (s.register x).1
  set ref := (s.register x).2
  have hsilent₁ : Silent s s₁ := .register s (x := x) (fun _ _ => nofun) hx.tags fun h =>
    hfree.self (hx.id ▸ h)
  have hhas₁ : s₁.Has (.scenario ref) := has_register_self s x
  have hget₁ : s₁.get ref = x := get_register_self s x
  set s₂ := s₁.modify r fun f => { f with background := some ref }
  have hsilent₂ : Silent s₁ s₂ := .modify s₁ r (fun _ => nofun) (fun _ => rfl) rfl fun _ => rfl
  have hid₂ : s₂.idOf (.scenario ref) = part (s.get r).id backgroundLabel :=
    (hsilent₂.idOf hhas₁).trans ((congrArg Scenario.id hget₁ :).trans hx.id)
  refine (steps_silent (c := .scenario ref) (hsilent₂.has hhas₁) (hid₂ ▸ hfree) site node).weaken
    (fun _ => id) ?_
  rintro _ s₃ - hsilent₃
  have hall : Silent s s₃ := (hsilent₁.silent hsilent₂).silent hsilent₃
  have hshape := hall.shape h.has id
  exact .of_told (hall.mono (fun _ => False.elim) rfl rfl rfl) (congrArg Shape.tags hshape :)
    (congrArg Shape.containers hshape :)

/-- What the children of a feature declare adds up. -/
theorem addsUp_declared (site : Site) (r : Ref Feature) :
    AddsUp site r (FeatureOpen · r) (fun _ _ => True) fun _ scenarios =>
      ContainersDeclared site.excluded r scenarios where
  left _ := trivial
  left_trans _ _ := trivial
  nothing _ := .refl _ _ _
  ready h _ hdone := h.declared hdone
  trans _ hdone hnext := hdone.trans hnext
  background h node := background_declared h _ site node
  outline h node _ := outline_declared h site node
  plainScenario h _ hexamples := plainScenario_declared h _ site (by
    rw [Value.keptTables, Value.itemsOf_of_absent hexamples, List.filter_nil])

/-! ## Documents -/

theorem place_silent (s : Store) (site : Site) (r : Ref Feature) :
    Ensures (place site r) s (fun _ => True) fun _ s' => Silent s s' := by
  unfold place
  split
  · rename_i n _
    rw [ensures_bind_read, ensures_bind_read]
    split
    · exact ensures_change trivial (.modify s n (fun _ => nofun) (fun _ => rfl) rfl fun _ => rfl)
    · exact .pure trivial (.refl s)
  · exact .throw trivial

/-- The scenarios of a feature are counted for its own tags. -/
theorem addTotals_told (s : Store) (total : Int) {tags : List (Ref Tag)} (hnodup : tags.Nodup)
    (hthere : ∀ t ∈ tags, s.Has (.tag t)) :
    Ensures (tags.forM fun tag => change tag fun t =>
        { t with totalScenarios := t.totalScenarios + total }) s (fun _ => True) fun _ s' =>
      Told untouched { count := fun t => if t ∈ tags then total else 0 } s s' := by
  refine .forM (fun done s' => Told untouched { count := fun t => if t ∈ done then total else 0 } s s')
    trivial ((Told.refl s).mono (fun _ => id) rfl rfl (funext fun t => by simp)) ?_
  rintro done tag rest s' rfl - htold
  have htag : s.Has (.tag tag) := hthere tag (List.mem_append_right _ (List.mem_cons_self ..))
  have hnew : tag ∉ done := fun h => (List.disjoint_of_nodup_append hnodup) h (List.mem_cons_self ..)
  refine ensures_change trivial ((htold.trans (Told.addCount s' (htold.has htag) total)
    fun _ => False.elim).mono (fun _ => id) rfl rfl (funext fun t => ?_))
  change _ = (if t ∈ done then total else 0) + if t = tag then total else 0
  by_cases ht : t = tag
  · simp [ht, hnew]
  · simp [ht]

/-- **The tags of a document that is built are declared on its records, and its scenarios are
counted.** -/
theorem document_declared (hs : s.TagsThere) (site : Site) (hfree : TagFree site.file)
    (content : Value) :
    Ensures (document site content) s (fun _ => True) fun result s' => ∀ r, result = some r →
      Declared untouched (content.blocks site.excluded) (s'.declarers r) (s'.carried r) s s' := by
  refine ensures_document trivial nofun fun node f hnode _ hf => ?_
  unfold fillFeature fillPlaced
  set s₁ := (s.register f).1
  set r := (s.register f).2
  have hget₁ : s₁.get r = f := get_register_self s f
  have hhas₁ : s₁.Has (.feature r) := has_register_self s f
  have hsilent₁ : Silent s s₁ :=
    .register s (x := f) (fun _ _ => nofun) hf.tags fun h => hfree.self (hf.id ▸ h)
  refine .bind (place_silent s₁ site r) ?_
  rintro _ s₂ - hplace
  have hsilent₂ := hsilent₁.silent hplace
  have hshape₂ := hplace.shape hhas₁ id
  have hhas₂ := hplace.has hhas₁
  have hempty₂ : s₂.tagList (.feature r) = [] := by
    rw [hplace.tagList_eq hhas₁ id]
    exact (congrArg Feature.tags hget₁ :).trans hf.tags
  refine ensures_bind_check trivial fun tags htags => ?_
  have hnew : ¬ s.Has (.feature r) := not_has_register_self s f
  refine .bind (declareAll_declares_new hs hsilent₂ hnew hhas₂ nofun nofun hempty₂ htags site.file) ?_
  rintro _ s₃ - ⟨hretags, hall₃⟩
  obtain ⟨a₃, htold₃, -⟩ := hall₃.told
  have hdeclares₃ : s₃.Declares node (.feature r) := List.forall₂_cons.mp hall₃.blocks |>.1
  have hframe : { s₃.get r with tags := [] } = { s₂.get r with tags := [] } :=
    Content.feature.inj hretags.untagged
  have hid₃ : (s₃.get r).id = site.file := by
    refine (congrArg Feature.id hframe :).trans ((congrArg Shape.id hshape₂ :).trans ?_)
    exact (congrArg Feature.id hget₁ :).trans hf.id
  have hscenarios₃ : (s₃.get r).scenarios = [] := by
    refine (congrArg Feature.scenarios hframe :).trans ((congrArg Shape.containers hshape₂ :).trans ?_)
    exact (congrArg Feature.scenarios hget₁ :).trans hf.scenarios
  -- the children come in, and then all is counted for the tags of the feature
  refine ensures_bind_check trivial fun nodes hnodes => ?_
  have hopen : FeatureOpen s₃ r := ⟨htold₃.tagsThere hs, hdeclares₃.has, hid₃ ▸ hfree⟩
  refine .bind ((addsUp_declared site r).children hopen nodes) ?_
  rintro _ s₄ - hcontainers
  obtain ⟨cs, hscenarios₄, hdeclared₄⟩ := hcontainers.containers
  rw [hscenarios₃, List.nil_append] at hscenarios₄
  have hall₄ := hall₃.trans_of_tags hdeclared₄ (by
    rintro _ rfl hhas
    exact absurd hhas hnew) (by
    intro e he
    rw [List.mem_singleton.mp he]
    exact hcontainers.tags)
  obtain ⟨a₄, htold₄, -⟩ := hall₄.told
  have hdeclares₄ : s₄.Declares node (.feature r) := List.forall₂_cons.mp hall₄.blocks |>.1
  rw [ensures_bind_read]
  refine .bind (addTotals_told s₄ _ hdeclares₄.nodup
    (has_of_declares (htold₄.tagsThere hs) hdeclares₄)) ?_
  rintro _ s₅ - htotals
  refine .pure trivial ?_
  rintro _ ⟨⟩
  have hshape₅ := htotals.shape hdeclares₄.has id
  have hscenarios₅ : (s₅.get r).scenarios = cs :=
    (congrArg Shape.containers hshape₅ :).trans hscenarios₄
  obtain ⟨hdeclarers, hruns, -⟩ := ContainersDeclared.declarers_of_told (r := r)
    (fun e he => has_of_forall₂_declares hdeclared₄.blocks e he)
    (htotals.mono (fun _ => False.elim) rfl rfl rfl)
  have hall₅ := hall₄.counted htotals (fun _ => False.elim) fun _ _ => id
  rw [declarers, hscenarios₅, hdeclarers, Value.blocks, Value.keptScenarios, Value.partOf_eq hnode,
    Value.itemsOf_eq hnodes]
  refine hall₅.mono (fun _ => id) fun t => ?_
  have htags₅ : (s₅.get r).tags = (s₄.get r).tags := (congrArg Shape.tags hshape₅ :)
  have htotal₅ : (s₅.get r).totalScenarios = (s₄.get r).totalScenarios :=
    (congrArg Shape.total hshape₅ :)
  rw [carried, hscenarios₅, hruns, htags₅, htotal₅, ← hcontainers.tags]
  by_cases ht : t ∈ (s₄.get r).tags <;> simp [ht]

/-! ## Files -/

theorem describe_silent (s : Store) (e : Entry) (text : String) : Silent s (s.describe e text) := by
  cases e with
  | nameSpace r | feature r | scenario r | outline r | examples r =>
      exact .modify s r (fun _ => nofun) (fun _ => rfl) rfl fun _ => rfl
  | step | tag | definition | transform => exact .refl s

theorem rootNamespace_silent (s : Store) :
    Ensures rootNamespace s (fun _ => True) fun _ s' => Silent s s' := by
  unfold rootNamespace
  rw [ensures_bind_get]
  split
  · exact .pure trivial (.refl s)
  · rw [ensures_bind_register]
    exact .pure trivial (.register s (fun _ _ => nofun) rfl (IsDirectory.not_isTag (Or.inl rfl)))

theorem childNamespace_silent {id name : String} {e : Entry} (he : IsSpace id e s)
    (hid : IsDirectory id) :
    Ensures (childNamespace e name) s (fun _ => True) fun _ s' => Silent s s' := by
  unfold childNamespace
  split
  · rename_i n
    rcases he with ⟨_, ⟨⟩, hn⟩ | hnone
    · rw [ensures_bind_read]
      split
      · exact .pure trivial (.refl s)
      · rw [ensures_bind_register, ensures_bind_change]
        set x : Namespace :=
          { id := (s.get n).id ++ "/" ++ name, name, parentId := some (s.get n).id }
        have hx : IsDirectory x.id := by
          rw [show x.id = id ++ "/" ++ name from congrArg (· ++ "/" ++ name) hn.idOf]
          exact hid.child name
        have hregister : Silent s (s.register x).1 :=
          .register s (fun _ _ => nofun) rfl hx.not_isTag
        refine .pure trivial (hregister.silent ?_)
        exact .modify _ n (fun _ => nofun) (fun _ => rfl) rfl fun _ => rfl
    · cases hnone
  · exact .throw trivial

theorem descend_silent (h : s.Tree) (hlabelled : s.Labelled) {top : String} {e : Entry}
    (he : IsSpace top e s) (htop : IsDirectory top) {names : List String}
    (hnames : ∀ name ∈ names, '/' ∉ name.toList) :
    Ensures (descend e names) s (fun _ => True) fun _ s' => Silent s s' := by
  induction names generalizing s top e with
  | nil => exact .pure trivial (.refl s)
  | cons name names ih =>
      refine .bind (((childNamespace_built h hlabelled he (hnames name (List.mem_cons_self ..))).keep.and
        (childNamespace_silent he htop)).weaken (fun _ _ => trivial) fun _ _ _ => id) ?_
      rintro e' s₁ - ⟨⟨hbuilt, he'⟩, hsilent⟩
      exact (ih hbuilt.tree (hlabelled.grows hbuilt.grows) he' (htop.child name)
        fun other hother => hnames other (List.mem_cons_of_mem _ hother)).weaken
        (fun _ => id) fun _ _ _ hrest => hsilent.silent hrest

theorem namespaceOf_silent (h : s.Tree) (hlabelled : s.Labelled)
    (hroot : ∀ e, s.catalog.find? rootNamespaceId = some e →
      e.kind = .nameSpace ∨ s.descriptionOf? e = none) {file : Path}
    (hnames : ∀ name ∈ file.names, '/' ∉ name.toList) (readMe : ReadMe) :
    Ensures (namespaceOf file readMe) s (fun _ => True) fun _ s' => Silent s s' := by
  unfold namespaceOf
  refine .bind (((rootNamespace_built h hlabelled hroot).keep.and (rootNamespace_silent s)).weaken
    (fun _ _ => trivial) fun _ _ _ => id) ?_
  rintro e s₁ - ⟨⟨hbuilt, he⟩, hsilent₁⟩
  refine .bind (descend_silent hbuilt.tree (hlabelled.grows hbuilt.grows) he (Or.inl rfl)
    fun name hname => hnames name (file.names.dropLast_sublist.subset hname)) ?_
  rintro e' s₂ - hsilent₂
  have hall := hsilent₁.silent hsilent₂
  rw [ensures_bind_get]
  refine ensures_bind_some? trivial fun description _ => ?_
  split
  · split
    · exact .pure trivial hall
    · refine ensures_bind_check trivial fun text _ => ?_
      rw [ensures_bind_modify]
      exact .pure trivial (hall.silent (describe_silent s₂ e' text))
  · exact .pure trivial hall

/-- **The build of a file declares the tags of its document on the records that come in for it.** -/
theorem feature_declared {files : String → Prop} {linked : Prop} (h : Sorted files linked s)
    (hfiles : ∀ file, files file → FeatureFile file) {file : Path} (hfile : PlainPath file)
    (content : Value) (excluded : List String) (readMe : ReadMe) :
    Ensures (feature file content excluded readMe) s (fun _ => True) fun result s' =>
      match result with
      | none => Silent s s'
      | some r => Declared untouched (content.blocks (excluded.map stripSigil)) (s'.declarers r)
          (s'.carried r) s s' := by
  have hpath := hfile.toFeaturePath
  have hthere : s.TagsThere := fun id t ht => (h.labelled ht).has
  have hfree : TagFree file.toString := fun id hid =>
    hfile.featureFile.not_isTag hfile.not_isTag hid
  have hroot : ∀ e, s.catalog.find? rootNamespaceId = some e →
      e.kind = .nameSpace ∨ s.descriptionOf? e = none := fun _ => h.root hfiles
  have hnames := hpath.proper.names
  have hsilent : Ensures (site file excluded readMe) s (fun _ => True) fun _ s' => Silent s s' :=
    .bind (namespaceOf_silent h.tree h.labelled hroot hnames readMe) fun _ _ _ h => .pure trivial h
  unfold feature
  refine .bind (((site_built h.tree h.labelled hroot hnames excluded readMe).keep.and hsilent).weaken
    (fun _ _ => trivial) fun _ _ _ => id) ?_
  rintro place s₁ - ⟨⟨-, hfile', hexcluded, -⟩, hsilent⟩
  refine (((document_built s₁ place content).keep.and (document_declared (hsilent.tagsThere hthere) place
    (hfile' ▸ hfree) content))).weaken (fun _ _ => trivial) ?_
  rintro result s₂ - ⟨⟨-, hbuilt⟩, hdeclared⟩
  cases result with
  | none =>
      obtain rfl : s₂ = s₁ := hbuilt
      exact hsilent
  | some r =>
      rw [← hexcluded]
      exact (hdeclared r rfl).of_new hsilent fun _ => False.elim

/-- **A tag that comes in with a document has a place**, and none comes in without one. -/
theorem feature_sited {files : String → Prop} {linked : Prop} (h : Sorted files linked s)
    (hfiles : ∀ file, files file → FeatureFile file) {file : Path} (hfile : PlainPath file)
    {content : Value} {excluded : List String} {readMe : ReadMe} {result : Option (Ref Feature)}
    {s' : Store} (hrun : (feature file content excluded readMe).run s = (.ok result, s'))
    {id : String} {t : Ref Tag} (ht : s'.catalog.find? id = some (.tag t)) :
    s.catalog.find? id = some (.tag t) ∨ result.isSome ∧ (s'.get t).sites ≠ [] := by
  have hdeclared := (feature_declared h hfiles hfile content excluded readMe).2
  rw [hrun] at hdeclared
  cases result with
  | none =>
      refine ((hdeclared none rfl).isNew ht).imp_right fun ⟨_, _, _, hsited⟩ => ?_
      exact absurd hsited List.not_mem_nil
  | some r =>
      obtain ⟨a, htold, -⟩ := (hdeclared (some r) rfl).told
      refine (htold.isNew ht).imp_right fun ⟨_, _, _, hsited⟩ => ⟨rfl, fun hnil => ?_⟩
      have hcount : 0 < a.sited.countP (· = t) := List.countP_pos_iff.mpr ⟨t, hsited, by simp⟩
      have hlength := htold.sites t
      rw [hnil, List.length_nil] at hlength
      omega

end Build

end StepTrace
