import StepTrace.Proofs.Linking.Links

/-!
# A pass from its start to its end

After the reset the pass goes through the features, their scenarios and their steps.  A step whose
text cannot be searched ends its feature, and a pattern that cannot be read ends every feature; so
what a pass comes to in a feature is what stands before the first such step (`Store.stepsReached`).
At every point it has linked exactly the steps that it has come to, and its report says which of them
found a definition, and which features failed (`InProgress`).

A failed feature does not end the pass, so every pass comes to its end (`linkAnew_run`).
-/

namespace StepTrace

open Store LinkingPass Linking

namespace Store

/-- The steps that a pass links: those of backgrounds and scenarios that run, in order. -/
def containerSteps (s : Store) (containers : List (Ref Scenario)) : List (Ref Step) :=
  containers.flatMap fun c => (s.get c).steps

def runningSteps (s : Store) : List (Ref Step) :=
  s.allFeatures.flatMap fun r => s.containerSteps (s.stepContainers (s.get r))

/-- The report on steps of which those with a definition are linked. -/
def reportOf (s : Store) (steps : List (Ref Step)) : LinkReport where
  linkedSteps := (steps.filter fun x => (s.stepMatch? x).isSome).map fun x => (s.get x).id
  unmatchedSteps := (steps.filter fun x => (s.stepMatch? x).isNone).map fun x => (s.get x).id

/-- The report with the features that have failed. -/
def passReport (s : Store) (steps : List (Ref Step)) (failed : List (Ref Feature)) : LinkReport :=
  { s.reportOf steps with failedFeatures := failed.map fun r => (s.get r).id }

/-- The text of the step can be searched, unless there is nothing to search for. -/
def searchable (s : Store) (x : Ref Step) : Bool :=
  match (s.get x).text with
  | .text _ => true
  | _ => s.patternCache.definitions.isEmpty

/-- The steps of a feature that a pass links. -/
def featureSteps (s : Store) (r : Ref Feature) : List (Ref Step) :=
  s.containerSteps (s.stepContainers (s.get r))

/-- The steps that a pass comes to in a feature. -/
def stepsReached (s : Store) (r : Ref Feature) : List (Ref Step) :=
  if PatternsReadable s then (s.featureSteps r).takeWhile s.searchable else []

/-- A pass comes to all of its steps. -/
def reachesAll (s : Store) (r : Ref Feature) : Bool :=
  PatternsReadable s && (s.featureSteps r).all s.searchable

/-- The steps that a pass comes to. -/
def linkableSteps (s : Store) : List (Ref Step) :=
  s.allFeatures.flatMap s.stepsReached

/-- The features that fail in a pass. -/
def failingFeatures (s : Store) : List (Ref Feature) :=
  s.allFeatures.filter fun r => !s.reachesAll r

variable {s : Store}

private theorem takeWhile_of_all {α : Type} {p : α → Bool} {xs : List α} (h : xs.all p = true) :
    xs.takeWhile p = xs := by
  rw [List.all_eq_true] at h
  have happend : (xs ++ []).takeWhile p = xs ++ [].takeWhile p := List.takeWhile_append_of_pos h
  rwa [List.append_nil, List.takeWhile_nil, List.append_nil] at happend

theorem stepsReached_sublist (s : Store) (r : Ref Feature) :
    (s.stepsReached r).Sublist (s.featureSteps r) := by
  unfold stepsReached
  split
  · exact List.takeWhile_sublist _
  · exact List.nil_sublist _

theorem flatMap_stepsReached_sublist (s : Store) (features : List (Ref Feature)) :
    (features.flatMap s.stepsReached).Sublist (features.flatMap s.featureSteps) := by
  induction features with
  | nil => exact List.Sublist.refl _
  | cons r features ih =>
      rw [List.flatMap_cons, List.flatMap_cons]
      exact (s.stepsReached_sublist r).append ih

theorem linkableSteps_sublist (s : Store) : s.linkableSteps.Sublist s.runningSteps :=
  s.flatMap_stepsReached_sublist s.allFeatures

/-- Texts can be searched to the end. -/
theorem reachesAll_of_texts (hpatterns : PatternsReadable s) {r : Ref Feature}
    (h : ∀ x ∈ s.featureSteps r, ∃ text, (s.get x).text = .text text) :
    s.reachesAll r = true ∧ s.stepsReached r = s.featureSteps r := by
  have hall : (s.featureSteps r).all s.searchable = true := by
    refine List.all_eq_true.mpr fun x hx => ?_
    obtain ⟨text, htext⟩ := h x hx
    rw [searchable, htext]
  refine ⟨by rw [reachesAll, hall, decide_eq_true hpatterns, Bool.true_and], ?_⟩
  rw [stepsReached, if_pos hpatterns, takeWhile_of_all hall]

theorem Ready.sublist {steps steps' : List (Ref Step)} (h : s.Ready steps)
    (hsub : steps'.Sublist steps) : s.Ready steps' where
  nodup := h.nodup.sublist (hsub.map _)
  has x hx := h.has x (hsub.subset hx)
  definition := h.definition
  transform := h.transform

/-- Where the text can be searched, the patterns of a pass find what is specified; where it cannot,
the search is refused. -/
theorem firstDefinition?_step (s : Store) (x : Ref Step) :
    s.patternCache.firstDefinition? (s.get x).text =
      if s.searchable x then .ok (s.stepMatch? x) else .error .wrongType := by
  by_cases hempty : s.patternCache.definitions = []
  · -- nothing is searched for, and nothing found
    have hnone : ∀ text, s.patternCache.firstDefinition? text = .ok none := by
      intro text
      simp [PatternCache.firstDefinition?, hempty]
    have hmatch : s.stepMatch? x = none := by
      have hfound := s.firstDefinition?_patternCache (s.get x).text.display
      rw [hnone] at hfound
      exact (Except.ok.inj hfound).symm
    have hsearchable : s.searchable x = true := by
      rw [searchable, hempty]
      split <;> rfl
    rw [hnone, hmatch, if_pos hsearchable]
  · cases htext : (s.get x).text
    case text text =>
      rw [firstDefinition?_patternCache, stepMatch?, searchable, htext, Value.display_text,
        if_pos rfl]
    all_goals
      have hsearchable : s.searchable x = false := by simp [searchable, htext, hempty]
      rw [hsearchable, if_neg nofun]
      unfold PatternCache.firstDefinition?
      split
      · exact absurd ‹s.patternCache.definitions = []› hempty
      · cases ‹_ = Value.text _›
      · rfl

end Store

namespace LinkingPass

variable {s₀ : Store} {w : LinkingWork} {done : List (Ref Step)} {failed : List (Ref Feature)}

/-- The pass has come to the given steps and nothing else, and the given features have failed. -/
structure InProgress (s₀ : Store) (done : List (Ref Step)) (failed : List (Ref Feature))
    (w : LinkingWork) : Prop where
  linked : LinkedUpTo s₀ done w.store
  cache : w.pass.cache = some s₀.patternCache ∧ PatternsReadable s₀ ∨
    w.pass.cache = none ∧ w.store = s₀
  report : w.pass.report = s₀.passReport done failed

/-! ## Steps -/

/-- How it ends to go through the steps. -/
def outcomeOf (s : Store) (steps : List (Ref Step)) : Except Fault Unit :=
  if steps.all s.searchable then .ok () else .error .wrongType

theorem linkStep_run {x : Ref Step} (hx : s₀.Has (.step x)) {w : Work}
    (h : LinkedUpTo s₀ done w.store) : (linkStep s₀.patternCache x).run w =
      if s₀.searchable x then
        (.ok (s₀.stepMatch? x).isSome, { w with store := linkNext s₀ x w.store })
      else (.error .wrongType, w) := by
  have hsame : (w.store.get x).text = (s₀.get x).text := by
    rw [h.step hx]
    split <;> rfl
  unfold linkStep
  rw [Action.run_bind_ok (Job.store_run w)]
  dsimp only
  rw [hsame, firstDefinition?_step]
  cases s₀.searchable x with
  | false => rfl
  | true =>
      rw [if_pos rfl, if_pos rfl, linkNext]
      rcases s₀.stepMatch? x with _ | ⟨d, m⟩ <;> rfl

theorem passReport_append (s : Store) (done : List (Ref Step)) (failed : List (Ref Feature))
    (x : Ref Step) : s.passReport (done ++ [x]) failed =
      if (s.stepMatch? x).isSome then
        { s.passReport done failed with
          linkedSteps := (s.passReport done failed).linkedSteps ++ [(s.get x).id] }
      else
        { s.passReport done failed with
          unmatchedSteps := (s.passReport done failed).unmatchedSteps ++ [(s.get x).id] } := by
  unfold passReport reportOf
  cases h : s.stepMatch? x <;> simp [List.filter_append, h]

theorem passReport_nil (s : Store) (steps : List (Ref Step)) :
    s.passReport steps [] = s.reportOf steps :=
  rfl

theorem linkSteps_run (steps : List (Ref Step)) (hready : s₀.Ready (done ++ steps))
    (h : InProgress s₀ done failed w) (hcache : w.pass.cache = some s₀.patternCache) :
    ∃ w', (linkSteps s₀.patternCache steps).run w = (outcomeOf s₀ steps, w') ∧
      InProgress s₀ (done ++ steps.takeWhile s₀.searchable) failed w' ∧
        w'.pass.cache = some s₀.patternCache := by
  -- the pass goes on from what the earlier steps have left
  induction steps generalizing done w with
  | nil =>
      rw [List.takeWhile_nil, List.append_nil]
      exact ⟨w, rfl, h, hcache⟩
  | cons x steps ih =>
      have hx := hready.has x (List.mem_append_right _ (List.mem_cons_self ..))
      have hstep := linkStep_run hx h.linked
      cases hsearchable : s₀.searchable x with
      | false =>
          have hjob : (job (linkStep s₀.patternCache x)).run w = (.error .wrongType, w) := by
            rw [job_run, hstep, if_neg (by simp [hsearchable])]
          refine ⟨w, ?_, by simpa [hsearchable] using h, hcache⟩
          rw [linkSteps, Action.run_bind_error hjob, outcomeOf, if_neg (by simp [hsearchable])]
      | true =>
          have hnext := h.linked.next hready
          set s₁ := linkNext s₀ x w.store
          set found := (s₀.stepMatch? x).isSome
          have hid : (s₁.get x).id = (s₀.get x).id := (hnext.rewired.idOf hx :)
          have hjob : (job (linkStep s₀.patternCache x)).run w =
              (.ok found, { w with store := s₁ }) := by
            rw [job_run, hstep, if_pos hsearchable]
          have hrun : (linkSteps s₀.patternCache (x :: steps)).run w =
              (linkSteps s₀.patternCache steps).run
                { w with
                  store := s₁
                  pass := { w.pass with report := s₀.passReport (done ++ [x]) failed } } := by
            rw [linkSteps, Action.run_bind_ok hjob, passReport_append, ← h.report, ← hid]
            cases hfound : found
            all_goals
              simp only [found] at hfound
              rw [hfound]
              rfl
          have hprogress : InProgress s₀ (done ++ [x]) failed
              { w with
                store := s₁
                pass := { w.pass with report := s₀.passReport (done ++ [x]) failed } } := by
            refine ⟨hnext, ?_, rfl⟩
            exact h.cache.imp_right fun hnone => by simp [hcache] at hnone
          have hlater : s₀.Ready (done ++ [x] ++ steps) := by
            rw [List.append_assoc]
            exact hready
          obtain ⟨w', hrest, hdone, hcache'⟩ := ih hlater hprogress hcache
          refine ⟨w', ?_, ?_, hcache'⟩
          · rw [hrun, hrest]
            simp [outcomeOf, hsearchable]
          · rw [List.append_assoc] at hdone
            rwa [List.takeWhile_cons_of_pos hsearchable]

/-! ## Scenarios and features -/

theorem outcomeOf_append (s : Store) (steps later : List (Ref Step)) :
    outcomeOf s (steps ++ later) =
      if steps.all s.searchable then outcomeOf s later else .error .wrongType := by
  unfold outcomeOf
  rw [List.all_append]
  cases steps.all s.searchable <;> rfl

theorem takeWhile_searchable_append {steps later : List (Ref Step)} (s : Store) :
    (steps ++ later).takeWhile s.searchable =
      if steps.all s.searchable then steps ++ later.takeWhile s.searchable
      else steps.takeWhile s.searchable := by
  induction steps with
  | nil => rfl
  | cons x steps ih =>
      rw [List.cons_append, List.takeWhile_cons, List.takeWhile_cons, List.all_cons, ih]
      cases s.searchable x <;> cases steps.all s.searchable <;> rfl

theorem linkContainers_run (containers : List (Ref Scenario))
    (hready : s₀.Ready (done ++ s₀.containerSteps containers))
    (hhas : ∀ c ∈ containers, s₀.Has (.scenario c)) (h : InProgress s₀ done failed w)
    (hcache : w.pass.cache = some s₀.patternCache) :
    ∃ w', (containers.forM fun c => do
        linkSteps s₀.patternCache ((← get).store.get c).steps : Linking Unit).run w =
          (outcomeOf s₀ (s₀.containerSteps containers), w') ∧
      InProgress s₀ (done ++ (s₀.containerSteps containers).takeWhile s₀.searchable) failed w' := by
  induction containers generalizing done w with
  | nil => exact ⟨w, rfl, by simpa [containerSteps] using h⟩
  | cons c containers ih =>
      have hsteps : (w.store.get c).steps = (s₀.get c).steps :=
        (congrArg Scenario.steps (Content.scenario.inj
          (h.linked.rewired.content (hhas c (List.mem_cons_self ..)))) :)
      have hcons : s₀.containerSteps (c :: containers) =
          (s₀.get c).steps ++ s₀.containerSteps containers := List.flatMap_cons ..
      rw [hcons, ← List.append_assoc] at hready
      obtain ⟨w₁, hrun₁, h₁, hcache₁⟩ := linkSteps_run (s₀.get c).steps
        (hready.sublist (List.sublist_append_left ..)) h hcache
      have hrun : ((c :: containers).forM fun c => do
          linkSteps s₀.patternCache ((← get).store.get c).steps : Linking Unit).run w =
          (linkSteps s₀.patternCache (s₀.get c).steps >>= fun _ => containers.forM fun c => do
            linkSteps s₀.patternCache ((← get).store.get c).steps : Linking Unit).run w := by
        rw [← hsteps]
        rfl
      rw [hrun, hcons, outcomeOf_append, takeWhile_searchable_append]
      cases hall : (s₀.get c).steps.all s₀.searchable with
      | false =>
          rw [outcomeOf, hall] at hrun₁
          exact ⟨w₁, Action.run_bind_error hrun₁, h₁⟩
      | true =>
          rw [outcomeOf, hall] at hrun₁
          rw [takeWhile_of_all hall] at h₁
          obtain ⟨w₂, hrun₂, h₂⟩ := ih hready (fun c' hc' => hhas c' (List.mem_cons_of_mem _ hc')) h₁
            hcache₁
          refine ⟨w₂, (Action.run_bind_ok hrun₁).trans hrun₂, ?_⟩
          rwa [List.append_assoc] at h₂

/-- The patterns are read at the first feature, and at every feature if they cannot be read. -/
theorem patterns_run (h : InProgress s₀ done failed w) :
    (PatternsReadable s₀ → ∃ w', patterns.run w = (.ok s₀.patternCache, w') ∧
      InProgress s₀ done failed w' ∧ w'.pass.cache = some s₀.patternCache) ∧
    (¬ PatternsReadable s₀ → ∃ fault w', patterns.run w = (.error fault, w') ∧
      InProgress s₀ done failed w') := by
  have hunfold : patterns.run w = (w.pass.cache.elim
      (do
        let cache ← job PatternCache.ofStore
        modify fun w => { w with pass := { w.pass with cache := some cache } }
        return cache) pure : Linking PatternCache).run w := by
    obtain ⟨work, ⟨cache, report⟩⟩ := w
    cases cache <;> rfl
  rw [hunfold]
  rcases h.cache with ⟨hcache, hreadable⟩ | ⟨hcache, hstore⟩
  · rw [hcache]
    exact ⟨fun _ => ⟨w, rfl, h, hcache⟩, fun hnot => absurd hreadable hnot⟩
  · rw [hcache, Option.elim_none]
    constructor
    · intro hreadable
      obtain ⟨w₁, hrun, hstore₁⟩ := ofStore_run_ok (w := w.toWork) (by rwa [hstore])
      have hjob : (job PatternCache.ofStore).run w =
          (.ok s₀.patternCache, { w with toWork := w₁ }) := by
        rw [job_run, hrun, hstore]
      refine ⟨{ w with
        toWork := w₁
        pass := { w.pass with cache := some s₀.patternCache } }, ?_,
        ⟨?_, Or.inl ⟨rfl, hreadable⟩, h.report⟩, rfl⟩
      · rw [Action.run_bind_ok hjob]
        rfl
      · change LinkedUpTo s₀ done w₁.store
        rw [hstore₁]
        exact h.linked
    · intro hnot
      obtain ⟨fault, w₁, hrun, hstore₁⟩ := ofStore_run_error (w := w.toWork) (by rwa [hstore])
      have hjob : (job PatternCache.ofStore).run w = (.error fault, { w with toWork := w₁ }) := by
        rw [job_run, hrun]
      refine ⟨fault, { w with toWork := w₁ }, Action.run_bind_error hjob, ?_,
        Or.inr ⟨hcache, hstore₁.trans hstore⟩, h.report⟩
      change LinkedUpTo s₀ done w₁.store
      rw [hstore₁]
      exact h.linked

/-- A fault ends the feature, and is reported. -/
theorem linkFeature_run (hs₀ : s₀.Wellformed) {r : Ref Feature} (hr : r ∈ s₀.allFeatures)
    (hready : s₀.Ready (done ++ s₀.featureSteps r)) (h : InProgress s₀ done failed w) :
    ∃ success w', (linkFeature (some (.feature r))).run w = (.ok success, w') ∧
      InProgress s₀ (done ++ s₀.stepsReached r)
        (if s₀.reachesAll r then failed else failed ++ [r]) w' := by
  obtain ⟨id, -, hformed⟩ := hs₀.mem_allFeatures hr
  have hunfold : (linkFeature (some (.feature r))).run w = linkFeature (some (.feature r)) w := rfl
  -- whatever the fault, the report gets the feature and the links stay as they are
  have hfail : ∀ {fault w₁ done₁}, (linkScenarios (some (.feature r))).run w = (.error fault, w₁) →
      InProgress s₀ done₁ failed w₁ → ∃ w', linkFeature (some (.feature r)) w = (.ok false, w') ∧
        InProgress s₀ done₁ (failed ++ [r]) w' := by
    intro fault w₁ done₁ hrun h₁
    rw [linkFeature, hrun]
    refine ⟨_, rfl, h₁.linked, h₁.cache, ?_⟩
    have hid : w₁.store.idOf (.feature r) = (s₀.get r).id := h₁.linked.rewired.idOf hformed.formed.has
    dsimp only
    rw [h₁.report, hid, passReport, passReport, List.map_append]
    rfl
  obtain ⟨hread, hnotRead⟩ := patterns_run h
  rw [hunfold]
  by_cases hreadable : PatternsReadable s₀
  · obtain ⟨w₁, hpatterns, h₁, hcache₁⟩ := hread hreadable
    have hcontainers : w₁.store.stepContainers (w₁.store.get r) = s₀.stepContainers (s₀.get r) :=
      h₁.linked.rewired.steady.stepContainers hformed
    have hhas : ∀ c ∈ s₀.stepContainers (s₀.get r), s₀.Has (.scenario c) := by
      intro c hc
      obtain ⟨cid, hscenario⟩ := hformed.stepContainer hc
      exact hscenario.formed.has
    obtain ⟨w₂, hrun, h₂⟩ := linkContainers_run _ hready hhas h₁ hcache₁
    have hscenarios : (linkScenarios (some (.feature r))).run w =
        (outcomeOf s₀ (s₀.featureSteps r), w₂) := by
      unfold linkScenarios
      rw [Action.run_bind_ok hpatterns, featureSteps, ← hrun, ← hcontainers]
      rfl
    rw [stepsReached, if_pos hreadable, reachesAll, decide_eq_true hreadable, Bool.true_and]
    cases hall : (s₀.featureSteps r).all s₀.searchable with
    | false =>
        rw [outcomeOf, hall] at hscenarios
        obtain ⟨w', hrun', h'⟩ := hfail hscenarios h₂
        exact ⟨false, w', hrun', h'⟩
    | true =>
        rw [outcomeOf, hall] at hscenarios
        refine ⟨true, w₂, ?_, h₂⟩
        rw [linkFeature, hscenarios]
        rfl
  · obtain ⟨fault, w₁, hpatterns, h₁⟩ := hnotRead hreadable
    have hscenarios : (linkScenarios (some (.feature r))).run w = (.error fault, w₁) := by
      unfold linkScenarios
      exact Action.run_bind_error hpatterns
    obtain ⟨w', hrun', h'⟩ := hfail hscenarios h₁
    refine ⟨false, w', hrun', ?_⟩
    simpa [stepsReached, reachesAll, hreadable] using h'

theorem linkFeatures_run (hs₀ : s₀.Wellformed) (hready : s₀.Ready s₀.runningSteps)
    (h : InProgress s₀ [] [] w) :
    ∃ w', (s₀.allFeatures.forM fun r => do
        let _ ← linkFeature (some (.feature r)) : Linking Unit).run w = (.ok (), w') ∧
      InProgress s₀ s₀.linkableSteps s₀.failingFeatures w' := by
  refine Action.run_forM (fun features => InProgress s₀ (features.flatMap s₀.stepsReached)
    (features.filter fun r => !s₀.reachesAll r)) _ ?_ h
  intro features r later w₁ hsplit h₁
  have hr : r ∈ s₀.allFeatures := by simp [hsplit]
  have hready₁ : s₀.Ready (features.flatMap s₀.stepsReached ++ s₀.featureSteps r) := by
    refine hready.sublist ?_
    have hrunning : s₀.runningSteps = features.flatMap s₀.featureSteps ++
        (s₀.featureSteps r ++ later.flatMap s₀.featureSteps) := by
      rw [runningSteps, hsplit, List.flatMap_append, List.flatMap_cons]
      rfl
    rw [hrunning]
    exact (s₀.flatMap_stepsReached_sublist features).append (List.sublist_append_left ..)
  obtain ⟨success, w₂, hrun, h₂⟩ := linkFeature_run hs₀ hr hready₁ h₁
  refine ⟨w₂, ?_, ?_⟩
  · rw [Action.run_bind_ok hrun]
    rfl
  · rw [List.flatMap_append, List.flatMap_singleton, List.filter_append, List.filter_singleton]
    cases hreaches : s₀.reachesAll r
    all_goals simpa [hreaches] using h₂

/-! ## The whole pass -/

/-- What a pass does after the reset. -/
def linkAnew : Linking LinkReport := do
  (← get).store.allFeatures.forM fun r => do
    let _ ← linkFeature (some (.feature r))
  let unused := unusedDefinitions (← get).store
  tell fun r => { r with unusedDefinitions := unused }
  return (← get).pass.report

theorem run_eq : run = reset >>= fun _ => linkAnew :=
  rfl

/-- **A pass comes to its end, with the steps linked that it has come to.** -/
theorem linkAnew_run (hpass : w.pass = {}) (hs : w.store.Wellformed)
    (hready : w.store.Ready w.store.runningSteps) :
    ∃ w', linkAnew.run w = (.ok { w.store.passReport w.store.linkableSteps w.store.failingFeatures with
        unusedDefinitions := unusedDefinitions w'.store }, w') ∧
      LinkedUpTo w.store w.store.linkableSteps w'.store := by
  have hstart : InProgress w.store [] [] w :=
    ⟨.start w.store, Or.inr ⟨by rw [hpass], rfl⟩, by rw [hpass]; rfl⟩
  obtain ⟨w₁, hrun, h₁⟩ := linkFeatures_run hs hready hstart
  set unused := unusedDefinitions w₁.store with hunused
  refine ⟨{ w₁ with pass := { w₁.pass with
    report := { w₁.pass.report with unusedDefinitions := unused } } }, ?_, h₁.linked⟩
  have hget : linkAnew.run w = (do
      w.store.allFeatures.forM fun r => do
        let _ ← linkFeature (some (.feature r))
      let unused := unusedDefinitions (← get).store
      tell fun r => { r with unusedDefinitions := unused }
      return (← get).pass.report : Linking LinkReport).run w := rfl
  rw [hget, Action.run_bind_ok hrun, ← h₁.report]
  rfl

/-- **On texts and readable patterns it comes to all steps that run**, and no feature fails. -/
theorem linkableSteps_of_texts {s : Store} (hpatterns : PatternsReadable s)
    (h : ∀ x ∈ s.runningSteps, ∃ text, (s.get x).text = .text text) :
    s.linkableSteps = s.runningSteps ∧ s.failingFeatures = [] := by
  have hreaches : ∀ r ∈ s.allFeatures,
      s.reachesAll r = true ∧ s.stepsReached r = s.featureSteps r := fun r hr =>
    reachesAll_of_texts hpatterns fun x hx => h x (List.mem_flatMap.mpr ⟨r, hr, hx⟩)
  refine ⟨List.flatMap_congr fun r hr => (hreaches r hr).2, List.filter_eq_nil_iff.mpr fun r hr => ?_⟩
  simp [(hreaches r hr).1]

end LinkingPass

end StepTrace
