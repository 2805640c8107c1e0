import StepTrace.Proofs.Build.Containers
import StepTrace.Proofs.Tags.Declared

/-!
# Tags of scenarios and outlines

What the builders of the children of a feature tell the tags: the tags of each scenario that is kept
and of each examples table that is kept are declared on the record that is made of it, and the
scenarios that it runs as are counted for its own tags, as far as the feature has not got them
(`ContainersDeclared`).  Steps, rows and backgrounds tell the tags nothing.
-/

namespace StepTrace

/-! ## What a document declares -/

namespace Value

/-- The examples tables of a scenario node that are kept. -/
def keptTables (names : List String) (node : Value) : List Value :=
  (node.itemsOf "examples").filter fun table => !table.isExcluded names

/-- A scenario node and its kept tables. -/
def blocksOf (names : List String) (node : Value) : List Value :=
  node :: node.keptTables names

end Value

/-- No identifier at or below the owner is that of a tag. -/
def TagFree (owner : String) : Prop :=
  ∀ id, Under owner id → ¬ IsTag id

namespace TagFree

variable {owner label : String}

theorem self (h : TagFree owner) : ¬ IsTag owner :=
  h owner (.refl owner)

theorem part (h : TagFree owner) (hlabel : IsLabel label) : TagFree (part owner label) :=
  fun id hid => h id (hid.of_part hlabel)

end TagFree

namespace Store

/-- The tables of a container, which has none unless it is an outline. -/
def tablesOf (s : Store) (c : Container) : List (Ref Examples) :=
  (s.content c.entry).shape.tables

/-- A container and its tables. -/
def declarersOf (s : Store) (c : Container) : List Entry :=
  c.entry :: (s.tablesOf c).map .examples

/-- The number of scenarios that a container runs as, if it has the tag. -/
def runsWith (s : Store) (t : Ref Tag) (c : Container) : Int :=
  if t ∈ s.tagList c.entry then (Build.runs s c).length else 0

variable {hole : Entry → Prop} {a : Account} {s s' : Store} {c : Container}

theorem length_runs_shape (h : (s'.content c.entry).shape = (s.content c.entry).shape) :
    (Build.runs s' c).length = (Build.runs s c).length := by
  cases c with
  | scenario => rfl
  | outline o => exact congrArg (fun x : Shape => x.rows.length) h

theorem Told.declarersOf_eq (h : Told hole a s s') (hc : s.Has c.entry) (hout : ¬ hole c.entry) :
    s'.declarersOf c = s.declarersOf c := by
  unfold declarersOf tablesOf
  rw [h.shape hc hout]

theorem Told.runsWith_eq (h : Told hole a s s') (hc : s.Has c.entry) (hout : ¬ hole c.entry)
    (t : Ref Tag) : s'.runsWith t c = s.runsWith t c := by
  unfold runsWith
  rw [h.tagList_eq hc hout, length_runs_shape (h.shape hc hout)]

end Store

namespace Build

open Store

variable {s s' s'' : Store} {r : Ref Feature} {o : Ref Outline}

/-! ## Steps and rows -/

theorem told_pushStep (s : Store) (c : Container) (step : Ref Step) : Silent s (pushStep s c step) := by
  cases c with
  | scenario x => exact .modify s x (fun _ => nofun) (fun _ => rfl) rfl fun _ => rfl
  | outline x => exact .modify s x (fun _ => nofun) (fun _ => rfl) rfl fun _ => rfl

/-- **Steps tell tags nothing.** -/
theorem steps_silent {c : Container} (hc : s.Has c.entry) (hfree : TagFree (s.idOf c.entry))
    (site : Site) (node : Value) :
    Ensures (steps site node c) s (fun _ => True) fun _ s' => Silent s s' := by
  unfold steps
  refine ensures_bind_check trivial fun nodes _ => ?_
  refine .forM (fun _ s' => Silent s s') trivial (.refl s) ?_
  intro _ node _ s' _ _ hsilent
  unfold step
  rw [ensures_bind_get, containerId_eq]
  refine ensures_bind_check trivial fun x hx => ?_
  rw [ensures_bind_register, addStep_eq]
  obtain ⟨hid, -⟩ := stepOf_ok hx
  rw [part_step, hsilent.idOf hc] at hid
  have hregister : Silent s' (s'.register x).1 := by
    refine .register s' (fun _ _ => nofun) rfl ?_
    rw [show Record.id x = _ from hid]
    exact (hfree.part (isLabel_step _)).self
  exact ensures_modify trivial ((hsilent.silent hregister).silent (told_pushStep ..))

/-- A row declares no tags. -/
theorem explodeRow_tags {x : Outline} {templates : List Step} {headers cells : List Value}
    {row : Scenario} {copies : List Step}
    (h : x.explodeRow templates headers cells = .ok (row, copies)) : row.tags = [] := by
  simp only [Outline.explodeRow, bind, Except.bind] at h
  split at h
  · cases h
  · cases h
    rfl

/-- **A row tells tags nothing**, and joins its outline. -/
theorem row_silent (ho : s.Has (.outline o)) (hfree : TagFree (s.get o).id)
    (headers cells : List Value) :
    Ensures (row o headers cells) s (fun _ => True) fun _ s' =>
      Told (· = .outline o) {} s s' ∧ ∃ row,
        (s'.get o).tags = (s.get o).tags ∧ (s'.get o).examples = (s.get o).examples ∧
        (s'.get o).scenarios = (s.get o).scenarios ++ [row] := by
  unfold row
  rw [ensures_bind_get]
  refine ensures_bind_check trivial ?_
  rintro ⟨x, xs⟩ hx
  obtain ⟨hid, -, -, hsteps⟩ := Outline.explodeRow_ok hx
  have hrow : TagFree x.id := by
    rw [hid]
    exact hfree.part (isLabel_row _)
  have hadd : Ensures (xs.mapM fun x => add x) s (fun _ => True) fun _ s' => Silent s s' :=
    .mapM (fun _ _ s' => Silent s s') trivial (.refl s) fun _ _ x _ s' _ _ h =>
      ⟨trivial, fun _ _ => h.silent (.add s' x (fun _ _ => nofun) rfl)⟩
  refine .bind (((addSteps_ensures s xs).and hadd).weaken (fun _ _ => trivial) fun _ _ _ h => h) ?_
  rintro refs s₁ - ⟨hrefs, hsilent₁⟩
  rw [ensures_bind_register]
  set y : Scenario := { x with steps := refs }
  set rowRef := (s₁.register y).2
  set s₂ := (s₁.register y).1
  have hsilent₂ : Silent s s₂ := hsilent₁.silent (.register s₁ (x := y) (fun _ _ => nofun)
    (explodeRow_tags hx) hrow.self)
  -- the identifiers of the steps lie below that of the row
  have hids : ∀ r ∈ refs, ¬ IsTag (s₂.get r).id := by
    intro r hr
    obtain ⟨i, hhas, hget⟩ := hrefs.exists_of_mem hr
    have hsame : s₂.get r = s₁.get r := Content.step.inj (content_register_of_has y hhas)
    rw [hsame, (hsteps i _ hget).1]
    exact (hrow.part (isLabel_step _)).self
  have henter : Ensures (refs.forM fun r => enter r) s₂ (fun _ => True) fun _ s' =>
      Silent s₂ s' ∧ ∀ r : Ref Step, s'.get r = s₂.get r := by
    refine .forM (fun _ s' => Silent s₂ s' ∧ ∀ r : Ref Step, s'.get r = s₂.get r) trivial
      ⟨.refl s₂, fun _ => rfl⟩ ?_
    rintro done r rest s' rfl - ⟨h, hsame⟩
    have hr : ¬ IsTag (s'.get r).id := by
      rw [hsame]
      exact hids r (List.mem_append_right _ (List.mem_cons_self ..))
    exact ensures_modify trivial ⟨h.silent (.enter s' r rfl hr), hsame⟩
  refine .bind henter ?_
  rintro _ s₃ - ⟨henter₃, -⟩
  have hsilent₃ := hsilent₂.silent henter₃
  have hshape := hsilent₃.shape ho id
  set s₄ := s₃.modify o fun o => { o with scenarios := o.scenarios ++ [rowRef] }
  have hget : s₄.get o = { s₃.get o with scenarios := (s₃.get o).scenarios ++ [rowRef] } :=
    get_modify_self s₃ o _ (hsilent₃.has ho)
  have hchange : Told (· = .outline o) {} s₃ s₄ :=
    .modify s₃ o (fun _ => nofun) (fun _ => rfl) rfl fun h => absurd rfl h
  refine ensures_change trivial ⟨hsilent₃.followed hchange, rowRef, ?_, ?_, ?_⟩
  · rw [hget]
    exact (congrArg Shape.tags hshape :)
  · rw [hget]
    exact (congrArg Shape.tables hshape :)
  · rw [hget]
    exact congrArg (· ++ [rowRef]) (congrArg Shape.rows hshape :)

/-- The rows of a table join the outline. -/
theorem rows_silent (ho : s.Has (.outline o)) (hfree : TagFree (s.get o).id) (headers : List Value)
    (body : List (List Value)) :
    Ensures (body.forM (row o headers)) s (fun _ => True) fun _ s' =>
      Told (· = .outline o) {} s s' ∧ ∃ rows,
        (s'.get o).tags = (s.get o).tags ∧ (s'.get o).examples = (s.get o).examples ∧
        (s'.get o).scenarios = (s.get o).scenarios ++ rows := by
  refine .forM (fun _ s' => Told (· = .outline o) {} s s' ∧ ∃ rows,
    (s'.get o).tags = (s.get o).tags ∧ (s'.get o).examples = (s.get o).examples ∧
    (s'.get o).scenarios = (s.get o).scenarios ++ rows) trivial
    ⟨.refl s, [], rfl, rfl, (List.append_nil _).symm⟩ ?_
  rintro _ cells _ s' - - ⟨htold, rows, htags, hexamples, hrows⟩
  have hid : (s'.get o).id = (s.get o).id := (htold.idOf ho :)
  refine (row_silent (htold.has ho) (hid ▸ hfree) headers cells).weaken (fun _ => id) ?_
  rintro _ s'' - ⟨hnext, row, htags', hexamples', hrow⟩
  refine ⟨htold.trans_nothing hnext fun _ h _ => h, rows ++ [row], htags'.trans htags,
    hexamples'.trans hexamples, ?_⟩
  rw [hrow, hrows, List.append_assoc]

/-! ## Tables -/

/-- Tables have come in for the nodes, with some rows. -/
structure TablesDeclared (o : Ref Outline) (nodes : List Value) (s s' : Store) : Prop where
  tags : (s'.get o).tags = (s.get o).tags
  tables : ∃ tables, (s'.get o).examples = (s.get o).examples ++ tables ∧
    Declared (· = .outline o) nodes (tables.map .examples) 0 s s'

namespace TablesDeclared

variable {nodes nodes' : List Value}

theorem refl (o : Ref Outline) (s : Store) : TablesDeclared o [] s s :=
  ⟨rfl, [], (List.append_nil _).symm, .refl s⟩

theorem trans (h : TablesDeclared o nodes s s') (h' : TablesDeclared o nodes' s' s'') :
    TablesDeclared o (nodes ++ nodes') s s'' := by
  obtain ⟨tables, hexamples, hdeclared⟩ := h.tables
  obtain ⟨tables', hexamples', hdeclared'⟩ := h'.tables
  refine ⟨h'.tags.trans h.tags, tables ++ tables', ?_, ?_⟩
  · rw [hexamples', hexamples, List.append_assoc]
  · rw [List.map_append]
    refine (hdeclared.trans hdeclared' (fun _ h _ => h) ?_).mono (fun _ => id) fun _ => rfl
    rintro _ he rfl
    obtain ⟨table, -, htable⟩ := List.mem_map.mp he
    cases htable

theorem has (h : TablesDeclared o nodes s s') (ho : s.Has (.outline o)) : s'.Has (.outline o) := by
  obtain ⟨tables, -, hdeclared⟩ := h.tables
  obtain ⟨a, htold, -⟩ := hdeclared.told
  exact htold.has ho

theorem tagsThere (h : TablesDeclared o nodes s s') (hs : s.TagsThere) : s'.TagsThere := by
  obtain ⟨tables, -, hdeclared⟩ := h.tables
  obtain ⟨a, htold, -⟩ := hdeclared.told
  exact htold.tagsThere hs

theorem id_eq (h : TablesDeclared o nodes s s') (ho : s.Has (.outline o)) :
    (s'.get o).id = (s.get o).id := by
  obtain ⟨tables, -, hdeclared⟩ := h.tables
  obtain ⟨a, htold, -⟩ := hdeclared.told
  exact (htold.idOf ho :)

end TablesDeclared

/-- What a table is filled with tells tags nothing; it joins its outline before its rows do. -/
theorem fillTable_told (ho : s.Has (.outline o)) (hfree : TagFree (s.get o).id)
    (table : Ref Examples) (node header : Value) (headers : List Value) :
    Ensures (fillTable o table node header headers) s (fun _ => True) fun _ s' =>
      Told (· = .outline o) {} s s' ∧ (s'.get o).tags = (s.get o).tags ∧
        (s'.get o).examples = (s.get o).examples ++ [table] := by
  unfold fillTable
  rw [ensures_bind_change]
  set s₁ := s.modify table _
  have hsilent₁ : Silent s s₁ := .modify s table (fun _ => nofun) (fun _ => rfl) rfl fun _ => rfl
  refine ensures_bind_check trivial fun body _ => ?_
  rw [ensures_bind_change, ensures_bind_change]
  set s₂ := s₁.modify table _
  have hsilent₂ : Silent s s₂ :=
    hsilent₁.silent (.modify s₁ table (fun _ => nofun) (fun _ => rfl) rfl fun _ => rfl)
  have ho₂ := hsilent₂.has ho
  have hshape₂ := hsilent₂.shape ho id
  set s₃ := s₂.modify o fun o => { o with examples := o.examples ++ [table] }
  have hjoin : Told (· = .outline o) {} s₂ s₃ :=
    .modify s₂ o (fun _ => nofun) (fun _ => rfl) rfl fun h => absurd rfl h
  have hget₃ : s₃.get o = { s₂.get o with examples := (s₂.get o).examples ++ [table] } :=
    get_modify_self s₂ o _ ho₂
  have hid₃ : (s₃.get o).id = (s.get o).id := by
    rw [hget₃]
    exact (congrArg Shape.id hshape₂ :)
  refine (rows_silent (hjoin.has ho₂) (hid₃ ▸ hfree) headers body).weaken (fun _ => id) ?_
  rintro _ s₄ - ⟨hrows, rows, htags₄, hexamples₄, -⟩
  refine ⟨(hsilent₂.followed hjoin).trans_nothing hrows fun _ h _ => h, ?_, ?_⟩
  · rw [htags₄, hget₃]
    exact (congrArg Shape.tags hshape₂ :)
  · rw [hexamples₄, hget₃]
    exact congrArg (· ++ [table]) (congrArg Shape.tables hshape₂ :)

/-- **The tags of an examples table are declared on its record**, unless it is excluded. -/
theorem examples_declared (hs : s.TagsThere) (ho : s.Has (.outline o)) (hfree : TagFree (s.get o).id)
    (site : Site) (node : Value) :
    Ensures (Build.examples site o node) s (fun _ => True) fun _ s' =>
      TablesDeclared o ([node].filter fun table => !table.isExcluded site.excluded) s s' := by
  refine ensures_examples trivial (fun hpassed => ?_) fun x hkept hx => ?_
  · rw [Value.kept_of_excluded hpassed]
    exact .refl o s
  rw [Value.kept_of_not_excluded hkept]
  set s₁ := (s.register x).1
  set table := (s.register x).2
  have hsilent₁ : Silent s s₁ := .register s (x := x) (fun _ _ => nofun) hx.tags fun h =>
    (hfree.part (isLabel_examples (s.get o).examples.length)).self (hx.id ▸ h)
  refine ensures_bind_check trivial fun tags htags => ?_
  have hempty : s₁.tagList (.examples table) = [] :=
    (congrArg Examples.tags (get_register_self s x) :).trans hx.tags
  refine .bind (declareAll_declares_new hs hsilent₁ (not_has_register_self s x)
    (has_register_self s x) nofun nofun hempty htags site.file) ?_
  rintro _ s₂ - ⟨-, hall₂⟩
  obtain ⟨a, htold₂, -⟩ := hall₂.told
  have hshape₂ := htold₂.shape ho id
  have hid₂ : (s₂.get o).id = (s.get o).id := (congrArg Shape.id hshape₂ :)
  refine ensures_bind_check trivial fun header _ => ?_
  refine ensures_bind_check trivial fun headers _ => ?_
  refine (fillTable_told (htold₂.has ho) (hid₂ ▸ hfree) table node header headers).weaken
    (fun _ => id) ?_
  rintro _ s₃ - ⟨htold₃, htags₃, hexamples₃⟩
  refine ⟨htags₃.trans (congrArg Shape.tags hshape₂ :), [table], ?_, ?_⟩
  · rw [hexamples₃]
    exact congrArg (· ++ [table]) (congrArg Shape.tables hshape₂ :)
  · refine ((hall₂.mono (fun _ => False.elim) fun _ => rfl).counted htold₃ (fun _ h _ => h)
      ?_).mono (fun _ => id) fun _ => rfl
    rintro _ he rfl
    cases List.mem_singleton.mp he

/-- The tables of an outline, one after the other. -/
theorem tables_declared (hs : s.TagsThere) (ho : s.Has (.outline o)) (hfree : TagFree (s.get o).id)
    (site : Site) (nodes : List Value) :
    Ensures (nodes.forM (Build.examples site o)) s (fun _ => True) fun _ s' =>
      TablesDeclared o (nodes.filter fun table => !table.isExcluded site.excluded) s s' := by
  refine .forM (fun done s' =>
    TablesDeclared o (done.filter fun table => !table.isExcluded site.excluded) s s') trivial
    (.refl o s) ?_
  intro done node _ s' _ _ h
  refine (examples_declared (h.tagsThere hs) (h.has ho) (h.id_eq ho ▸ hfree) site node).weaken
    (fun _ => id) fun _ _ _ hnext => ?_
  rw [List.filter_append]
  exact h.trans hnext

/-! ## Counting -/

/-- **Scenarios are counted for the tags of a list that the feature has not got**, once for each. -/
theorem countScenarios_told (s : Store) (count : Int) (known seen tags : List (Ref Tag))
    (hthere : ∀ t ∈ tags, s.Has (.tag t)) :
    Ensures (countScenarios count (some known) seen tags) s (fun _ => True) fun _ s' =>
      Told untouched { count := fun t => if t ∈ tags ∧ t ∉ seen ∧ t ∉ known then count else 0 }
        s s' := by
  induction tags generalizing s seen with
  | nil =>
      refine .pure trivial ((Told.refl s).mono (fun _ => id) rfl rfl (funext fun t => ?_))
      simp
  | cons tag tags ih =>
      have hrest : ∀ t ∈ tags, s.Has (.tag t) := fun t ht => hthere t (List.mem_cons_of_mem _ ht)
      unfold countScenarios
      split
      · rename_i hseen
        refine (ih s seen hrest).weaken (fun _ => id) fun _ _ _ h =>
          h.mono (fun _ => id) rfl rfl (funext fun t => ?_)
        by_cases ht : t = tag
        · simp [ht, hseen]
        · simp [ht]
      · rename_i hseen
        refine ensures_bind_some? trivial ?_
        rintro _ ⟨⟩
        split
        · rename_i hknown
          refine (ih s seen hrest).weaken (fun _ => id) fun _ _ _ h =>
            h.mono (fun _ => id) rfl rfl (funext fun t => ?_)
          by_cases ht : t = tag
          · simp [ht, hknown]
          · simp [ht]
        · rename_i hknown
          rw [ensures_bind_change]
          have hadd : Told untouched _ s _ :=
            Told.addCount s (hthere tag (List.mem_cons_self ..)) count
          refine (ih _ (tag :: seen) fun t ht => hadd.has (hrest t ht)).weaken (fun _ => id)
            fun _ _ _ h => (hadd.trans h fun _ => False.elim).mono (fun _ => id) rfl rfl
              (funext fun t => ?_)
          -- the tag counts here and, as it has been seen, not again
          change _ = (if t = tag then count else 0) +
            if t ∈ tags ∧ t ∉ tag :: seen ∧ t ∉ known then count else 0
          by_cases ht : t = tag
          · simp [ht, hseen, hknown]
          · simp [ht]

/-! ## Scenarios and outlines -/

/-- Containers have come in for the scenario nodes, with their tags declared, and their scenarios
counted for the tags that the feature has not got. -/
structure ContainersDeclared (names : List String) (r : Ref Feature) (nodes : List Value)
    (s s' : Store) : Prop where
  tags : (s'.get r).tags = (s.get r).tags
  containers : ∃ cs, (s'.get r).scenarios = (s.get r).scenarios ++ cs ∧
    Declared (· = .feature r) (nodes.flatMap (Value.blocksOf names)) (cs.flatMap s'.declarersOf)
      (fun t => if t ∈ (s.get r).tags then 0 else (cs.map (s'.runsWith t)).sum) s s'

namespace ContainersDeclared

variable {names : List String} {nodes nodes' : List Value}

theorem told (h : ContainersDeclared names r nodes s s') : ∃ a, Told (· = .feature r) a s s' := by
  obtain ⟨cs, -, hdeclared⟩ := h.containers
  obtain ⟨a, htold, -⟩ := hdeclared.told
  exact ⟨a, htold⟩

/-- What is silent but for the feature, and changes neither its tags nor its containers. -/
theorem of_told (h : Told (· = .feature r) {} s s') (htags : (s'.get r).tags = (s.get r).tags)
    (hscenarios : (s'.get r).scenarios = (s.get r).scenarios) :
    ContainersDeclared names r [] s s' := by
  refine ⟨htags, [], by rw [hscenarios, List.append_nil], ?_⟩
  refine (Declared.of_told h).mono (fun _ => id) fun t => ?_
  simp

theorem refl (names : List String) (r : Ref Feature) (s : Store) :
    ContainersDeclared names r [] s s :=
  .of_told (.refl s) rfl rfl

theorem entry_ne (c : Container) : c.entry ≠ .feature r := by
  cases c <;> exact nofun

/-- Containers stay as they are while others come in. -/
theorem declarers_of_told {a : Account} {cs : List Container}
    (hhas : ∀ e ∈ cs.flatMap s.declarersOf, s.Has e) (htold : Told (· = .feature r) a s s') :
    cs.flatMap s'.declarersOf = cs.flatMap s.declarersOf ∧
      (∀ t, cs.map (s'.runsWith t) = cs.map (s.runsWith t)) ∧
      ∀ e ∈ cs.flatMap s.declarersOf, e ≠ .feature r := by
  have hc : ∀ c ∈ cs, s.Has c.entry := fun c hc =>
    hhas _ (List.mem_flatMap.mpr ⟨c, hc, List.mem_cons_self ..⟩)
  refine ⟨List.flatMap_congr fun c h => htold.declarersOf_eq (hc c h) (entry_ne c),
    fun t => List.map_congr_left fun c h => htold.runsWith_eq (hc c h) (entry_ne c) t, ?_⟩
  rintro _ he rfl
  obtain ⟨c, -, hmem⟩ := List.mem_flatMap.mp he
  rcases List.mem_cons.mp hmem with heq | hmem
  · exact entry_ne c heq.symm
  · obtain ⟨table, -, htable⟩ := List.mem_map.mp hmem
    cases htable

theorem trans (h : ContainersDeclared names r nodes s s')
    (h' : ContainersDeclared names r nodes' s' s'') :
    ContainersDeclared names r (nodes ++ nodes') s s'' := by
  obtain ⟨cs, hscenarios, hdeclared⟩ := h.containers
  obtain ⟨cs', hscenarios', hdeclared'⟩ := h'.containers
  obtain ⟨a', htold'⟩ := h'.told
  obtain ⟨hdeclarers, hruns, hout⟩ :=
    declarers_of_told (has_of_forall₂_declares hdeclared.blocks) htold'
  refine ⟨h'.tags.trans h.tags, cs ++ cs', by rw [hscenarios', hscenarios, List.append_assoc], ?_⟩
  rw [List.flatMap_append, List.flatMap_append, hdeclarers]
  refine (hdeclared.trans hdeclared' (fun _ h _ => h) hout).mono (fun _ => id) fun t => ?_
  rw [h.tags, Pi.add_apply, List.map_append, List.sum_append, hruns]
  split <;> simp

end ContainersDeclared

/-- The feature is there and no part of it can be mistaken for a tag. -/
structure FeatureOpen (s : Store) (r : Ref Feature) : Prop where
  there : s.TagsThere
  has : s.Has (.feature r)
  free : TagFree (s.get r).id

theorem FeatureOpen.declared {names : List String} {nodes : List Value} (h : FeatureOpen s r)
    (hdeclared : ContainersDeclared names r nodes s s') : FeatureOpen s' r := by
  obtain ⟨a, htold⟩ := hdeclared.told
  have hid : (s'.get r).id = (s.get r).id := (htold.idOf h.has :)
  exact ⟨htold.tagsThere h.there, htold.has h.has, hid ▸ h.free⟩

/-- Tags that a record holds are there. -/
theorem has_of_declares {node : Value} {e : Entry} (hs : s.TagsThere) (h : s.Declares node e) :
    ∀ t ∈ s.tagList e, s.Has (.tag t) := by
  intro t ht
  obtain ⟨token, -, his⟩ := h.only t ht
  exact hs his

/-- A container joins the feature, which tells tags nothing. -/
structure JoinsSilently (r : Ref Feature) (c : Container) (s s' : Store) : Prop where
  told : Told (· = .feature r) {} s s'
  tags : (s'.get r).tags = (s.get r).tags
  scenarios : (s'.get r).scenarios = (s.get r).scenarios ++ [c]

namespace JoinsSilently

variable {c : Container} {f : Feature → Feature}

theorem modify (hr : s.Has (.feature r)) (hid : ∀ x, (f x).id = x.id)
    (htags : ∀ x, (f x).tags = x.tags) (hscenarios : ∀ x, (f x).scenarios = x.scenarios ++ [c]) :
    JoinsSilently r c s (s.modify r f) := by
  have hget : (s.modify r f).get r = f (s.get r) := get_modify_self s r f hr
  refine ⟨.modify s r (fun _ => nofun) hid (htags _) fun h => absurd rfl h, ?_, ?_⟩
  · rw [hget, htags]
  · rw [hget, hscenarios]

theorem silent (h : JoinsSilently r c s s') (hr : s.Has (.feature r)) (h' : Silent s' s'') :
    JoinsSilently r c s s'' := by
  have hshape := h'.shape (h.told.has hr) id
  exact ⟨h.told.silent h', (congrArg Shape.tags hshape :).trans h.tags,
    (congrArg Shape.containers hshape :).trans h.scenarios⟩

/-- The feature may change otherwise than in its tags and containers. -/
theorem recount (h : JoinsSilently r c s s') (hr : s.Has (.feature r)) (hid : ∀ x, (f x).id = x.id)
    (htags : ∀ x, (f x).tags = x.tags) (hscenarios : ∀ x, (f x).scenarios = x.scenarios) :
    JoinsSilently r c s (s'.modify r f) := by
  have hget : (s'.modify r f).get r = f (s'.get r) := get_modify_self s' r f (h.told.has hr)
  have hchange : Told (· = .feature r) {} s' (s'.modify r f) :=
    .modify s' r (fun _ => nofun) hid (htags _) fun h => absurd rfl h
  refine ⟨h.told.nothing_trans hchange fun _ h _ => h, ?_, ?_⟩
  · rw [hget, htags, h.tags]
  · rw [hget, hscenarios, h.scenarios]

end JoinsSilently

/-- **A container on which the tags of a scenario node have been declared joins the feature, and its
runs are counted for its own tags.** -/
theorem countScenarios_declared {names : List String} {node : Value} {c : Container}
    {tables : List (Ref Examples)} {count : Int} (h : FeatureOpen s r)
    (hdeclared : Declared untouched (node.blocksOf names) (c.entry :: tables.map .examples) 0 s s')
    (htables : s'.tablesOf c = tables) (hjoins : JoinsSilently r c s' s'')
    (hcount : (Build.runs s' c).length = count) :
    Ensures (countScenarios count (some (s''.get r).tags) [] (s''.tagList c.entry)) s''
      (fun _ => True) fun _ t => ContainersDeclared names r [node] s t := by
  have hne := ContainersDeclared.entry_ne (r := r) c
  have hdeclares : s'.Declares node c.entry := List.forall₂_cons.mp hdeclared.blocks |>.1
  obtain ⟨a, htold, -⟩ := hdeclared.told
  have hr := htold.has h.has
  have hshape := htold.shape h.has id
  rw [hjoins.told.tagList_eq hdeclares.has hne]
  refine (countScenarios_told s'' count _ [] _ fun t ht => hjoins.told.has
    (has_of_declares (htold.tagsThere h.there) hdeclares t ht)).weaken (fun _ => id) ?_
  rintro _ t - hcounted
  have hshape' := hcounted.shape (hjoins.told.has hr) id
  have hall := hjoins.told.nothing_trans hcounted fun _ => False.elim
  have htags : (s''.get r).tags = (s.get r).tags :=
    hjoins.tags.trans (congrArg Shape.tags hshape :)
  have hdeclarers : [c].flatMap t.declarersOf = c.entry :: tables.map .examples := by
    rw [List.flatMap_singleton, hall.declarersOf_eq hdeclares.has hne, declarersOf, htables]
  refine ⟨(congrArg Shape.tags hshape' :).trans htags, [c], ?_, ?_⟩
  · refine (congrArg Shape.containers hshape' :).trans (hjoins.scenarios.trans ?_)
    exact congrArg (· ++ [c]) (congrArg Shape.containers hshape :)
  rw [hdeclarers, List.flatMap_singleton]
  refine ((hdeclared.mono (fun _ => False.elim) fun _ => rfl).counted hall (fun _ h _ => h) ?_).mono
    (fun _ => id) fun tag => ?_
  · rintro _ he rfl
    rcases List.mem_cons.mp he with heq | hmem
    · exact hne heq.symm
    · obtain ⟨table, -, htable⟩ := List.mem_map.mp hmem
      cases htable
  · rw [List.map_singleton, List.sum_singleton, hall.runsWith_eq hdeclares.has hne, runsWith, hcount,
      htags, Pi.add_apply, Pi.zero_apply, Int.zero_add]
    by_cases htag : tag ∈ (s.get r).tags <;> simp [htag]

/-- **The tags of a plain scenario are declared on it, and it is counted for them.** -/
theorem plainScenario_declared (h : FeatureOpen s r) (names : List String) (site : Site)
    {node : Value} (hplain : node.keptTables names = []) :
    Ensures (plainScenario site r node) s (fun _ => True) fun _ s' =>
      ContainersDeclared names r [node] s s' := by
  refine ensures_plainScenario trivial fun x hx => ?_
  unfold fillScenario
  have hid : x.id = nextPart s r := hx.id
  have hfree : TagFree (nextPart s r) := h.free.part (isLabel_scenario _)
  set s₁ := (s.register x).1
  set ref := (s.register x).2
  have hsilent₁ : Silent s s₁ := .register s (x := x) (fun _ _ => nofun) hx.tags fun h =>
    hfree.self (hid ▸ h)
  have hget₁ : s₁.get ref = x := get_register_self s x
  refine ensures_bind_check trivial fun tags htags => ?_
  refine .bind (declareAll_declares_new h.there hsilent₁ (not_has_register_self s x)
    (has_register_self s x) nofun nofun ((congrArg Scenario.tags hget₁ :).trans hx.tags) htags
    site.file) ?_
  rintro _ s₂ - ⟨hretags, hall⟩
  obtain ⟨a, htold₂, -⟩ := hall.told
  have hr₂ := htold₂.has h.has
  have hhas₂ : s₂.Has (.scenario ref) := hretags.grows.has (has_register_self s x)
  have hid₂ : s₂.idOf (.scenario ref) = nextPart s r :=
    (hretags.grows.idOf (has_register_self s x)).trans ((congrArg Scenario.id hget₁ :).trans hid)
  -- the scenario joins the feature, gets its steps, and is counted
  rw [ensures_bind_change]
  set s₃ := s₂.modify r _
  have hjoins₃ : JoinsSilently r (.scenario ref) s₂ s₃ :=
    .modify hr₂ (fun _ => rfl) (fun _ => rfl) fun _ => rfl
  have hid₃ : s₃.idOf (.scenario ref) = nextPart s r := (hjoins₃.told.idOf hhas₂).trans hid₂
  refine .bind (steps_silent (c := .scenario ref) (hjoins₃.told.has hhas₂) (hid₃ ▸ hfree) site node) ?_
  rintro _ s₄ - hsteps
  rw [ensures_bind_change, ensures_bind_read, ensures_bind_read]
  have hblocks : Declared untouched (node.blocksOf names)
      (.scenario ref :: ([] : List (Ref Examples)).map .examples) 0 s s₂ := by
    rw [Value.blocksOf, hplain]
    exact hall
  exact countScenarios_declared h (c := .scenario ref) hblocks rfl
    ((hjoins₃.silent hr₂ hsteps).recount hr₂ (fun _ => rfl) (fun _ => rfl) fun _ => rfl) rfl

/-- **The tags of an outline are declared on it and those of its tables on them, and its rows are
counted for its own tags.** -/
theorem outline_declared (h : FeatureOpen s r) (site : Site) (node : Value) :
    Ensures (outline site r node) s (fun _ => True) fun _ s' =>
      ContainersDeclared site.excluded r [node] s s' := by
  refine ensures_outline trivial fun x hx => ?_
  unfold fillOutline
  have hfree : TagFree (nextPart s r) := h.free.part (isLabel_scenario _)
  set s₁ := (s.register x).1
  set ref := (s.register x).2
  have hnew : ¬ s.Has (.outline ref) := not_has_register_self s x
  have hsilent₁ : Silent s s₁ := .register s (x := x) (fun _ _ => nofun) hx.tags fun h =>
    hfree.self (hx.id ▸ h)
  have hget₁ : s₁.get ref = x := get_register_self s x
  refine ensures_bind_check trivial fun tags htags => ?_
  refine .bind (declareAll_declares_new h.there hsilent₁ hnew (has_register_self s x) nofun nofun
    ((congrArg Outline.tags hget₁ :).trans hx.tags) htags site.file) ?_
  rintro _ s₂ - ⟨hretags, hall₂⟩
  have hhas₂ : s₂.Has (.outline ref) := hretags.grows.has (has_register_self s x)
  have hframe : { s₂.get ref with tags := [] } = { s₁.get ref with tags := [] } :=
    Content.outline.inj hretags.untagged
  have hid₂ : (s₂.get ref).id = nextPart s r :=
    (congrArg Outline.id hframe :).trans ((congrArg Outline.id hget₁ :).trans hx.id)
  have hexamples₂ : (s₂.get ref).examples = [] :=
    (congrArg Outline.examples hframe :).trans ((congrArg Outline.examples hget₁ :).trans hx.examples)
  -- the outline gets its steps and its tables
  refine .bind (steps_silent (c := .outline ref) hhas₂ ((hid₂ :) ▸ hfree : TagFree (s₂.get ref).id)
    site node) ?_
  rintro _ s₃ - hsilent₃
  have hall₃ : Declared untouched [node] [.outline ref] 0 s s₃ :=
    (hall₂.counted hsilent₃ (fun _ => False.elim) fun _ _ => id).mono (fun _ => id) fun _ => rfl
  obtain ⟨a₃, htold₃, -⟩ := hall₃.told
  have hshape₃ := hsilent₃.shape hhas₂ id
  have hid₃ : (s₃.get ref).id = nextPart s r := (congrArg Shape.id hshape₃ :).trans hid₂
  refine ensures_bind_check trivial fun nodes hnodes => ?_
  refine .bind (tables_declared (htold₃.tagsThere h.there) (hsilent₃.has hhas₂) (hid₃ ▸ hfree) site
    nodes) ?_
  rintro _ s₄ - htables
  have hkept : node.keptTables site.excluded =
      nodes.filter fun table => !table.isExcluded site.excluded := by
    rw [Value.keptTables, Value.itemsOf_eq hnodes]
  rw [← hkept] at htables
  obtain ⟨tables, hexamples, hdeclared₄⟩ := htables.tables
  rw [show (s₃.get ref).examples = [] from (congrArg Shape.tables hshape₃ :).trans hexamples₂,
    List.nil_append] at hexamples
  have hall₄ : Declared untouched (node.blocksOf site.excluded)
      (.outline ref :: tables.map .examples) 0 s s₄ := by
    refine (hall₃.trans_of_tags hdeclared₄ ?_ ?_).mono (fun _ => id) fun _ => rfl
    · rintro _ rfl hhas
      exact absurd hhas hnew
    · intro e he
      rw [List.mem_singleton.mp he]
      exact htables.tags
  obtain ⟨a₄, htold₄, -⟩ := hall₄.told
  -- it joins the feature, and its rows are counted
  rw [ensures_bind_read, ensures_bind_change, ensures_bind_read, ensures_bind_read]
  exact countScenarios_declared h (c := .outline ref) hall₄ hexamples
    (.modify (htold₄.has h.has) (fun _ => rfl) (fun _ => rfl) fun _ => rfl) rfl

end Build

end StepTrace
