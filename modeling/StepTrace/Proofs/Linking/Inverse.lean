import StepTrace.Proofs.Linking.Interlinked
import StepTrace.Proofs.Linking.Reached

/-!
# Links during a pass

After every call of a pass, whatever the calls are and however they end, the links are inverse to
each other (`Reached.linksInverse`).

A pass has either read no patterns, and linked nothing, or linked with the patterns that it has read
(`InPass`).  Each of its calls keeps this: it links steps that run, one after the other
(`linkSteps_keeps`), and changes no other link, apart from the reset.
-/

namespace StepTrace

open Store LinkingPass

namespace Store

variable {s s' : Store} {c : PatternCache}

/-! ## Registries that are tidy -/

/-- What a pass relies on, whatever is linked. -/
structure Tidy (s : Store) : Prop where
  wellformed : s.Wellformed
  apart : s.StepsApart
  sole : s.Sole

theorem Tidy.rewired (h : s.Tidy) (hrewired : Rewired s s') : s'.Tidy := by
  have hrelinked := hrewired.relinked h.wellformed.consistent h.wellformed.labelled
  have hs' := h.wellformed.relinked hrelinked hrewired.steady
  refine ⟨hs', h.apart.rewired hrewired, h.sole.steady h.wellformed hs' hrewired.steady ?_⟩
  exact fun he hkind => hrelinked.old he hkind.not_isTarget

/-- Where targets come, change or go. -/
theorem Tidy.relinked (h : s.Tidy) {linked : Prop} (hlinks : Relinked linked s s')
    (hsteady : Steady s s') (hapart : s'.StepsApart) : s'.Tidy := by
  have hs' := h.wellformed.relinked hlinks hsteady
  refine ⟨hs', hapart, h.sole.steady h.wellformed hs' hsteady ?_⟩
  exact fun he hkind => hlinks.old he hkind.not_isTarget

section

variable {α : Type} [Record α] [HeapRecord α]

/-- A target comes in. -/
theorem Tidy.register (h : s.Tidy) (htemplates : s.TemplatesUnlinked) (x : α)
    (htarget : ∀ r : Ref α, (Record.entry r).kind.IsTarget) (hempty : (HeapRecord.wrap x).Empty)
    (hfree : s.Free (Record.id x)) :
    (s.register x).1.Tidy ∧ (s.register x).1.TemplatesUnlinked := by
  have hlinks : Relinked True s (s.register x).1 :=
    relinked_register h.wellformed.consistent h.wellformed.labelled trivial x htarget hfree
  have hchange : Build.Change (fun _ => True) True s (s.register x).1 := .register s x hempty (.inl trivial)
  exact ⟨h.relinked hlinks (steady_register s x) (h.apart.change hchange),
    htemplates.change h.apart hchange⟩

/-- A record that is no document changes as far as its pattern goes. -/
theorem Tidy.repattern (h : s.Tidy) (r : Ref α) {f : α → α}
    (hf : ∀ x, (HeapRecord.wrap (f x)).unlinked = (HeapRecord.wrap x).unlinked)
    (hsteps : ∀ x, (HeapRecord.wrap x).SameSteps (HeapRecord.wrap (f x))) :
    (s.modify r f).Tidy ∧ (s.modify r f).runningSteps = s.runningSteps := by
  have hwell := h.wellformed
  have hsteady : Steady s (s.modify r f) := steady_modify s r hf
  have hlinks : Relinked True s (s.modify r f) :=
    relinked_modify hwell.consistent hwell.labelled trivial r hf
  have hchange : Build.Change (fun _ => True) True s (s.modify r f) := .modify s r hsteps (.inl trivial)
  refine ⟨h.relinked hlinks hsteady (h.apart.change hchange), ?_⟩
  have hfeatures : (s.modify r f).allFeatures = s.allFeatures := by
    rw [allFeatures, catalog_modify, ← allFeatures]
  rw [runningSteps, runningSteps, hfeatures]
  refine List.flatMap_congr fun r' hr' => ?_
  obtain ⟨id, -, hformed⟩ := hwell.mem_allFeatures hr'
  exact hsteady.containerSteps hformed

end

end Store

namespace LinkingPass

variable {s₀ : Store} {c : PatternCache} {w : LinkingWork} {α β : Type}

/-- A pass between two calls: what is linked has been linked with the patterns that were read, and
nothing is linked if none were. -/
structure InPass (w : LinkingWork) : Prop where
  tidy : w.store.Tidy
  templates : w.store.TemplatesUnlinked
  read : ∀ c, w.pass.cache = some c → w.store.Cached c ∧ w.store.Interlinked c
  unread : w.pass.cache = none → ∀ c, w.store.Interlinked c

theorem InPass.inverse (h : InPass w) : w.store.LinksInverse := by
  have hlinks : ∃ c, w.store.Interlinked c := by
    cases hcache : w.pass.cache with
    | none => exact ⟨{}, h.unread hcache {}⟩
    | some c => exact ⟨c, (h.read c hcache).2⟩
  obtain ⟨c, hlinks⟩ := hlinks
  exact hlinks.inverse h.tidy.wellformed h.tidy.sole h.templates

/-- The pass has read the patterns and is linking the steps of a registry. -/
structure Underway (s₀ : Store) (c : PatternCache) (w : LinkingWork) : Prop where
  inPass : InPass w
  cache : w.pass.cache = some c
  rewired : Rewired s₀ w.store

/-! ## Actions that keep a property -/

/-- However it ends, the action keeps the property. -/
def Keeps (P : LinkingWork → Prop) (x : Linking α) : Prop :=
  ∀ w, P w → P (x.run w).2

namespace Keeps

variable {P : LinkingWork → Prop}

theorem pure (a : α) : Keeps P (Pure.pure a) :=
  fun _ h => h

theorem throw (fault : Fault) : Keeps P (MonadExcept.throw fault : Linking α) :=
  fun _ h => h

theorem bind {x : Linking α} {f : α → Linking β} (hx : Keeps P x) (hf : ∀ a, Keeps P (f a)) :
    Keeps P (x >>= f) := by
  intro w hw
  have h := hx w hw
  rw [Action.run_bind]
  rcases hresult : x.run w with ⟨fault | a, w'⟩
  · rwa [hresult] at h
  · rw [hresult] at h
    exact hf a w' h

theorem get_bind {f : LinkingWork → Linking β} (hf : ∀ w, P w → Keeps P (f w)) :
    Keeps P (MonadState.get >>= f) :=
  fun w hw => hf w hw w hw

theorem forM {xs : List α} {f : α → Linking Unit} (hf : ∀ x ∈ xs, Keeps P (f x)) :
    Keeps P (xs.forM f) := by
  induction xs with
  | nil => exact .pure ()
  | cons x xs ih =>
      exact .bind (hf x (List.mem_cons_self ..)) fun _ =>
        ih fun y hy => hf y (List.mem_cons_of_mem _ hy)

end Keeps

/-! ## Steps and scenarios -/

theorem mem_of_firstDefinition? {text : Value} {d : Ref Definition} {m : Regex.Match}
    (h : c.firstDefinition? text = .ok (some (d, m))) : ∃ p ∈ c.definitions, p.2 = d := by
  unfold PatternCache.firstDefinition? at h
  split at h
  · cases h
  · obtain ⟨p, hp, hmatch⟩ := List.exists_of_findSome?_eq_some (Except.ok.inj h)
    obtain ⟨m', -, heq⟩ := Option.map_eq_some_iff.mp hmatch
    exact ⟨p, hp, (Prod.mk.inj heq).1⟩
  · cases h

theorem mem_of_transformsOf {m : Regex.Match} {t : Ref Transform} (h : t ∈ transformsOf c m) :
    ∃ p ∈ c.transforms, p.2 = t := by
  obtain ⟨text, -, ht⟩ := List.mem_flatMap.mp h
  obtain ⟨p, hp, heq⟩ := List.mem_map.mp ht
  exact ⟨p, List.mem_of_mem_filter hp, heq⟩

theorem linkStep_keeps (hs₀ : s₀.Tidy) {x : Ref Step} (hx : x ∈ s₀.runningSteps) :
    Keeps (Underway s₀ c) (job (linkStep c x)) := by
  intro w h
  have hrunning : x ∈ w.store.runningSteps := by
    rwa [h.rewired.runningSteps_eq hs₀.wellformed]
  have hwell := h.inPass.tidy.wellformed
  have hhas := hwell.has_step hrunning
  rw [job_run]
  unfold linkStep
  rw [Action.run_bind_ok (Job.store_run w.toWork)]
  rcases hfound : c.firstDefinition? (w.store.get x).text with fault | _ | ⟨d, m⟩
  · exact h
  · exact h
  · obtain ⟨hcached, hlinks⟩ := h.inPass.read c h.cache
    have hd : w.store.Has (.definition d) := by
      obtain ⟨p, hp, rfl⟩ := mem_of_firstDefinition? hfound
      exact hcached.definition p hp
    have ht : ∀ t ∈ transformsOf c m, w.store.Has (.transform t) := by
      intro t ht
      obtain ⟨p, hp, rfl⟩ := mem_of_transformsOf ht
      exact hcached.transform p hp
    have hlinked := stepLinked hhas hd ht
    have hrewired : Rewired w.store
        ((transformsOf c m).foldl (linkTransform x) (linkDefinition x w.store d)) :=
      (linkDefinition_rewired x w.store d).trans (.foldl (linkTransform_rewired x) _ _)
    set s' := (transformsOf c m).foldl (linkTransform x) (linkDefinition x w.store d)
    have hnext := hlinks.next hwell hrunning hfound hrewired hlinked
    have hcached' : s'.Cached c := ⟨fun p hp => (hrewired.has _).mpr (hcached.definition p hp),
      fun p hp => (hrewired.has _).mpr (hcached.transform p hp)⟩
    show Underway s₀ c { w with store := s' }
    refine ⟨⟨h.inPass.tidy.rewired hrewired, ?_, ?_, ?_⟩, h.cache, h.rewired.trans hrewired⟩
    · exact h.inPass.templates.next hrewired hlinked fun o ho =>
        h.inPass.tidy.apart.not_template hwell hrunning ho
    · intro c' hc'
      obtain rfl : c = c' := Option.some.inj (h.cache.symm.trans hc')
      exact ⟨hcached', hnext⟩
    · exact fun hnone => absurd (h.cache.symm.trans hnone) nofun

theorem tell_keeps (f : LinkReport → LinkReport) : Keeps (Underway s₀ c) (tell f) :=
  fun _ h => ⟨⟨h.inPass.tidy, h.inPass.templates, h.inPass.read, h.inPass.unread⟩, h.cache,
    h.rewired⟩

theorem linkSteps_keeps (hs₀ : s₀.Tidy) {steps : List (Ref Step)}
    (hsteps : ∀ x ∈ steps, x ∈ s₀.runningSteps) : Keeps (Underway s₀ c) (linkSteps c steps) := by
  induction steps with
  | nil => exact .pure ()
  | cons x steps ih =>
      have hrest := ih fun y hy => hsteps y (List.mem_cons_of_mem _ hy)
      unfold linkSteps
      refine .bind (linkStep_keeps hs₀ (hsteps x (List.mem_cons_self ..))) fun found => ?_
      refine .get_bind fun _ _ => ?_
      dsimp only
      split
      · exact .bind (tell_keeps _) fun _ => hrest
      · exact .bind (tell_keeps _) fun _ => hrest

theorem linkContainers_keeps (hs₀ : s₀.Tidy) {containers : List (Ref Scenario)}
    (hhas : ∀ a ∈ containers, s₀.Has (.scenario a))
    (hsteps : ∀ x ∈ s₀.containerSteps containers, x ∈ s₀.runningSteps) :
    Keeps (Underway s₀ c) (containers.forM fun scenario => do
      linkSteps c ((← get).store.get scenario).steps) := by
  refine .forM fun a ha => .get_bind fun _ h => linkSteps_keeps hs₀ fun x hx => ?_
  rw [h.rewired.steady.get_scenario (hhas a ha)] at hx
  exact hsteps x (List.mem_flatMap.mpr ⟨a, ha, hx⟩)

/-! ## Patterns -/

theorem readAll_mem {α : Type} {pattern : α → Value} {xs : List α} {w w' : Work}
    {found : List (Regex × α)}
    (h : (PatternCache.readAll pattern xs).run w = (.ok found, w')) : ∀ p ∈ found, p.2 ∈ xs := by
  induction xs generalizing w w' found with
  | nil =>
      cases h
      exact nofun
  | cons x xs ih =>
      rw [readAll_cons] at h
      generalize Linking.readPattern (pattern x) = read at h
      rcases read with fault | ⟨regex?, warnings⟩
      · cases h
      · dsimp only at h
        split at h
        · cases h
        · rename_i rest _ hrest
          cases h
          intro p hp
          rcases List.mem_append.mp hp with hp | hp
          · cases regex? with
            | none => cases hp
            | some regex =>
                rw [List.mem_singleton.mp hp]
                exact List.mem_cons_self ..
          · exact List.mem_cons_of_mem _ (ih hrest p hp)

/-- The patterns that are read are those of registered records. -/
theorem ofStore_cached (hs : s₀.Wellformed) {w w' : Work} (hw : w.store = s₀)
    (h : PatternCache.ofStore.run w = (.ok c, w')) : s₀.Cached c := by
  rw [ofStore_run] at h
  obtain ⟨definitions, w₁, hdefinitions, h⟩ := Action.run_bind_eq_ok h
  obtain ⟨transforms, w₂, htransforms, h⟩ := Action.run_bind_eq_ok h
  cases h
  rw [hw] at hdefinitions htransforms
  refine ⟨fun p hp => ?_, fun p hp => ?_⟩
  · obtain ⟨id, hid⟩ := (mem_allDefinitions hs.consistent).mp (readAll_mem hdefinitions p hp)
    exact (hs.labelled hid).has
  · obtain ⟨id, hid⟩ := (mem_allTransforms hs.consistent).mp (readAll_mem htransforms p hp)
    exact (hs.labelled hid).has

/-- Reading the patterns, on first use, links nothing. -/
theorem patterns_underway (h : InPass w) :
    InPass (patterns.run w).2 ∧ ∀ c, (patterns.run w).1 = .ok c →
      Underway w.store c (patterns.run w).2 := by
  unfold patterns
  rw [Action.run_bind_ok (get_run w)]
  cases hcache : w.pass.cache with
  | some c =>
      refine ⟨h, ?_⟩
      rintro _ ⟨⟩
      exact ⟨h, hcache, .refl _⟩
  | none =>
      dsimp only
      have hstore := ofStore_store w.toWork
      rw [Action.run_bind, job_run]
      rcases hresult : PatternCache.ofStore.run w.toWork with ⟨fault | c, w₁⟩
      all_goals
        rw [hresult] at hstore
        dsimp only at hstore ⊢
      · refine ⟨⟨?_, ?_, fun c hc => ?_, fun _ => ?_⟩, nofun⟩
        all_goals simp only [hstore]
        · exact h.tidy
        · exact h.templates
        · rw [hcache] at hc
          cases hc
        · exact h.unread hcache
      · have hcached := ofStore_cached h.tidy.wellformed rfl hresult
        have hnext : InPass { toWork := w₁, pass := { w.pass with cache := some c } } := by
          refine ⟨?_, ?_, ?_, nofun⟩
          all_goals simp only [hstore]
          · exact h.tidy
          · exact h.templates
          · rintro _ ⟨⟩
            exact ⟨hcached, h.unread hcache c⟩
        refine ⟨hnext, ?_⟩
        rintro _ ⟨⟩
        exact ⟨hnext, rfl, by rw [← hstore]; exact .refl _⟩

/-! ## The calls of a pass -/

theorem linkScenarios_keeps {entry : Option Entry}
    (hentry : ∀ r, entry = some (.feature r) → r ∈ w.store.allFeatures) (h : InPass w) :
    InPass ((linkScenarios entry).run w).2 := by
  unfold linkScenarios
  obtain ⟨hread, hunderway⟩ := patterns_underway h
  rw [Action.run_bind]
  rcases hresult : patterns.run w with ⟨fault | c, w₁⟩
  · rwa [hresult] at hread
  · rw [hresult] at hunderway
    have h₁ : Underway w.store c w₁ := hunderway c rfl
    dsimp only
    split
    · rename_i r
      have hr := hentry r rfl
      obtain ⟨id, -, hformed⟩ := h.tidy.wellformed.mem_allFeatures hr
      have hcontainers := h₁.rewired.steady.stepContainers hformed
      have hkeeps : Keeps (Underway w.store c)
          ((w.store.stepContainers (w.store.get r)).forM _) :=
        linkContainers_keeps (c := c) h.tidy (fun a ha => by
          obtain ⟨cid, hscenario⟩ := hformed.stepContainer ha
          exact hscenario.formed.has) fun x hx => List.mem_flatMap.mpr ⟨r, hr, hx⟩
      rw [← hcontainers] at hkeeps
      exact (hkeeps w₁ h₁).inPass
    · exact h₁.inPass

/-- Reports and warnings do not matter. -/
theorem InPass.told (h : InPass w) (warnings : List Warning) (report : LinkReport) :
    InPass { w with warnings, pass := { w.pass with report } } :=
  ⟨h.tidy, h.templates, h.read, h.unread⟩

/-- **Linking a feature keeps the links inverse**, wherever it fails. -/
theorem linkFeature_keeps {entry : Option Entry}
    (hentry : ∀ r, entry = some (.feature r) → r ∈ w.store.allFeatures) (h : InPass w) :
    InPass ((linkFeature entry).run w).2 := by
  have hscenarios := linkScenarios_keeps hentry h
  have hrun : (linkFeature entry).run w = linkFeature entry w := rfl
  rw [hrun, linkFeature]
  rcases hresult : (linkScenarios entry).run w with ⟨fault | _, w'⟩
  all_goals
    rw [hresult] at hscenarios
    dsimp only
  · split
    · exact hscenarios.told _ _
    · exact hscenarios
  · exact hscenarios

/-- **After the reset nothing is linked.** -/
theorem reset_inPass (hs : w.store.Tidy) (htemplates : w.store.TemplatesUnlinked) :
    InPass (reset.run w).2 := by
  have hreset := unlink_reset hs.wellformed.consistent hs.wellformed.labelled
  rw [reset_run]
  generalize unlink w.store = s' at hreset
  refine ⟨hs.rewired hreset.rewired, ?_, nofun, fun _ c => interlinked_reset hreset⟩
  intro o ho x hx
  show (s'.get x).Unlinked
  have ho : w.store.Has (.outline o) := (hreset.rewired.has _).mp ho
  have hsame : s'.get o = w.store.get o := hreset.rewired.steady.get_outline ho
  rw [hsame] at hx
  rw [hreset.step, resetStep]
  split
  · exact ⟨rfl, rfl⟩
  · exact htemplates o ho x hx

/-- **A run keeps the links inverse**, whatever was linked before. -/
theorem run_inPass (hs : w.store.Tidy) (htemplates : w.store.TemplatesUnlinked) :
    InPass (run.run w).2 := by
  have hreset := reset_inPass hs htemplates
  rw [run_eq, Action.run_bind_ok (reset_run w)]
  rw [reset_run] at hreset
  generalize ({ w with store := unlink w.store, pass := {} } : LinkingWork) = w₀ at hreset
  have hfeatures : Keeps (fun w => InPass w ∧ Rewired w₀.store w.store)
      (w₀.store.allFeatures.forM fun r => do let _ ← linkFeature (some (.feature r))) := by
    refine .forM fun r hr => .bind (fun w₁ h => ⟨linkFeature_keeps ?_ h.1,
      h.2.trans (linkFeature_rewires _ w₁)⟩) fun _ => .pure ()
    rintro _ ⟨⟩
    rwa [h.2.allFeatures_eq]
  have hanew : Keeps (fun w => InPass w ∧ Rewired w₀.store w.store)
      (w₀.store.allFeatures.forM (fun r => do let _ ← linkFeature (some (.feature r))) >>= fun _ =>
        (do
          let unused := unusedDefinitions (← get).store
          tell fun r => { r with unusedDefinitions := unused }
          return (← get).pass.report : Linking LinkReport)) := by
    refine .bind hfeatures fun _ => .get_bind fun _ _ => .bind ?_ fun _ => .get_bind fun _ _ => .pure _
    exact fun w h => ⟨h.1.told w.warnings _, h.2⟩
  exact (hanew w₀ ⟨hreset, .refl _⟩).1

/-- A call of a pass, or a change of a pattern between two calls. -/
inductive PassCall where
  | reset
  | run
  /-- Links what is registered under the identifier. -/
  | link (id : String)
  | definitionPattern (d : Ref Definition) (pattern : Value)
  | transformPattern (t : Ref Transform) (pattern : Value)

/-- What the call leaves, whether it comes to its end or not. -/
def PassCall.apply (w : LinkingWork) : PassCall → LinkingWork
  | reset => (LinkingPass.reset.run w).2
  | run => (LinkingPass.run.run w).2
  | link id => ((linkFeature (w.store.catalog.find? id)).run w).2
  | definitionPattern d pattern =>
    { w with store := w.store.modify d fun x => { x with pattern } }
  | transformPattern t pattern =>
    { w with store := w.store.modify t fun x => { x with pattern } }

/-- What a pass over a registry can have come to, after a first reset. -/
inductive Calls (s : Store) : LinkingWork → Prop
  | reset (warnings : List Warning) (pass : LinkingPass) :
      Calls s (PassCall.reset.apply { store := s, warnings, pass })
  | next {w : LinkingWork} (h : Calls s w) (call : PassCall) : Calls s (call.apply w)

/-- A change of the store that keeps the steps that run, and all links. -/
theorem InPass.of_same (h : InPass w) {s : Store} (htidy : s.Tidy)
    (hcatalog : s.catalog = w.store.catalog) (hrunning : s.runningSteps = w.store.runningSteps)
    (hhas : ∀ e, w.store.Has e → s.Has e) (hstep : ∀ x : Ref Step, s.get x = w.store.get x)
    (houtline : ∀ o : Ref Outline, s.Has (.outline o) →
      w.store.Has (.outline o) ∧ s.get o = w.store.get o)
    (hdefinition : ∀ d ∈ w.store.allDefinitions, (s.get d).steps = (w.store.get d).steps)
    (htransform : ∀ t ∈ w.store.allTransforms, (s.get t).steps = (w.store.get t).steps) :
    InPass { w with store := s } := by
  refine ⟨htidy, fun o ho x hx => ?_, fun c hc => ?_, fun hnone c => ?_⟩
  · obtain ⟨ho, hsame⟩ := houtline o ho
    rw [show ({ w with store := s } : LinkingWork).store.get o = w.store.get o from hsame] at hx
    rw [show ({ w with store := s } : LinkingWork).store.get x = w.store.get x from hstep x]
    exact h.templates o ho x hx
  · obtain ⟨hcached, hlinks⟩ := h.read c hc
    exact ⟨⟨fun p hp => hhas _ (hcached.definition p hp), fun p hp => hhas _ (hcached.transform p hp)⟩,
      hlinks.of_same hcatalog hrunning hstep hdefinition htransform⟩
  · exact (h.unread hnone c).of_same hcatalog hrunning hstep hdefinition htransform

/-- One call after the other. -/
theorem Calls.sequence {s : Store} (h : Calls s w) (calls : List PassCall) :
    Calls s (calls.foldl PassCall.apply w) := by
  induction calls generalizing w with
  | nil => exact h
  | cons call calls ih => exact ih (h.next call)

theorem InPass.apply (h : InPass w) (call : PassCall) : InPass (call.apply w) := by
  cases call with
  | reset => exact reset_inPass h.tidy h.templates
  | run => exact run_inPass h.tidy h.templates
  | link id =>
      refine linkFeature_keeps (fun r hr => ?_) h
      exact (mem_allFeatures h.tidy.wellformed.consistent).mpr ⟨id, hr⟩
  | definitionPattern d pattern =>
      set f : Definition → Definition := fun x => { x with pattern }
      obtain ⟨htidy, hrunning⟩ := h.tidy.repattern d (f := f) (fun _ => rfl) fun _ => ⟨rfl, rfl, rfl⟩
      refine h.of_same htidy (catalog_modify _ d f) hrunning (fun e => (has_modify _ d f e).mpr)
        (fun x => ?_) (fun o ho => ⟨(has_modify _ d f _).mp ho, ?_⟩) (fun d' hd' => ?_) fun t _ => ?_
      · exact get_eq_of_content_eq (content_modify_of_ne _ d f (e := .step x) nofun)
      · exact get_eq_of_content_eq (content_modify_of_ne _ d f (e := .outline o) nofun)
      · by_cases heq : d' = d
        · obtain ⟨id, hid⟩ := (mem_allDefinitions h.tidy.wellformed.consistent).mp hd'
          subst heq
          rw [get_modify_self _ d' f (h.tidy.wellformed.labelled hid).has]
        · rw [get_eq_of_content_eq (content_modify_of_ne _ d f (e := .definition d')
            fun hentry => heq (Entry.definition.inj hentry))]
      · rw [get_eq_of_content_eq (content_modify_of_ne _ d f (e := .transform t) nofun)]
  | transformPattern t pattern =>
      set f : Transform → Transform := fun x => { x with pattern }
      obtain ⟨htidy, hrunning⟩ := h.tidy.repattern t (f := f) (fun _ => rfl) fun _ => ⟨rfl, rfl, rfl⟩
      refine h.of_same htidy (catalog_modify _ t f) hrunning (fun e => (has_modify _ t f e).mpr)
        (fun x => ?_) (fun o ho => ⟨(has_modify _ t f _).mp ho, ?_⟩) (fun d _ => ?_) fun t' ht' => ?_
      · exact get_eq_of_content_eq (content_modify_of_ne _ t f (e := .step x) nofun)
      · exact get_eq_of_content_eq (content_modify_of_ne _ t f (e := .outline o) nofun)
      · rw [get_eq_of_content_eq (content_modify_of_ne _ t f (e := .definition d) nofun)]
      · by_cases heq : t' = t
        · obtain ⟨id, hid⟩ := (mem_allTransforms h.tidy.wellformed.consistent).mp ht'
          subst heq
          rw [get_modify_self _ t' f (h.tidy.wellformed.labelled hid).has]
        · rw [get_eq_of_content_eq (content_modify_of_ne _ t f (e := .transform t')
            fun hentry => heq (Entry.transform.inj hentry))]

end LinkingPass

namespace Reached

variable {built : List Path} {s : Store}

/-- **Every reached registry is tidy, and its templates are linked to nothing.** -/
theorem tidy (h : Reached IsFeaturePath built s) : s.Tidy ∧ s.TemplatesUnlinked := by
  induction h with
  | empty =>
      refine ⟨⟨wellformed_empty, stepsApart_empty, nofun⟩, fun o ho => ?_⟩
      exact absurd ho (by simp [Store.Has, Arena.Holds])
  | build h call hpath hnew ih =>
      obtain ⟨htidy, htemplates⟩ := ih
      obtain ⟨stem, hstem⟩ := hpath.ending
      have hchanges := Build.feature_changes call.file call.content call.excluded call.readMe
      exact ⟨⟨htidy.wellformed.apply call ⟨stem, hstem.symm⟩, htidy.apart.changes (hchanges _),
        htidy.sole.apply htidy.wellformed call ⟨stem, hstem.symm⟩⟩,
        htemplates.changes htidy.apart (hchanges _)⟩
  | define h d hfree ih => exact ih.1.register ih.2 d (fun _ => trivial) ⟨rfl, rfl, rfl⟩ hfree
  | convert h t hfree ih => exact ih.1.register ih.2 t (fun _ => trivial) ⟨rfl, rfl, rfl⟩ hfree
  | @definitionPattern _ s h d pattern ih =>
      have hchange : Build.Change (fun _ => True) True s (s.modify d fun x => { x with pattern }) :=
        .modify s d (fun _ => ⟨rfl, rfl, rfl⟩) (.inl trivial)
      exact ⟨(ih.1.repattern d (f := fun x => { x with pattern }) (fun _ => rfl)
        fun _ => ⟨rfl, rfl, rfl⟩).1, ih.2.change ih.1.apart hchange⟩
  | @transformPattern _ s h t pattern ih =>
      have hchange : Build.Change (fun _ => True) True s (s.modify t fun x => { x with pattern }) :=
        .modify s t (fun _ => ⟨rfl, rfl, rfl⟩) (.inl trivial)
      exact ⟨(ih.1.repattern t (f := fun x => { x with pattern }) (fun _ => rfl)
        fun _ => ⟨rfl, rfl, rfl⟩).1, ih.2.change ih.1.apart hchange⟩
  | @remove _ s h id hfree ih =>
      obtain ⟨htidy, htemplates⟩ := ih
      have hwell := htidy.wellformed
      have hlinks : Relinked True _ _ := relinked_remove hwell.consistent hwell.labelled trivial hfree
      have hcontent : ∀ e, (s.remove id).content e = s.content e := content_with_catalog s _
      have hhas : ∀ e, (s.remove id).Has e ↔ s.Has e := has_with_catalog s _
      have hapart : (s.remove id).StepsApart := by
        refine ⟨fun he x hx => ?_, fun he he' x hx hx' => ?_⟩
        · exact (hhas _).mpr (htidy.apart.has ((hhas _).mp he) (hcontent _ ▸ hx))
        · exact htidy.apart.same ((hhas _).mp he) ((hhas _).mp he') (hcontent _ ▸ hx)
            (hcontent _ ▸ hx')
      exact ⟨htidy.relinked hlinks (steady_remove _ id) hapart, htemplates⟩
  | @link _ s h warnings ih =>
      have hpass := run_inPass (w := { store := s, warnings }) ih.1 ih.2
      rcases hresult : run.run { store := s, warnings } with ⟨result, done⟩
      rw [hresult] at hpass
      rw [linkAll_run hresult]
      exact ⟨hpass.tidy, hpass.templates⟩

/-- **After every call of a pass the links are inverse to each other.** -/
theorem linksInverse (h : Reached IsFeaturePath built s) {w : LinkingWork} (hcalls : Calls s w) :
    w.store.LinksInverse := by
  obtain ⟨htidy, htemplates⟩ := h.tidy
  have hpass : InPass w := by
    induction hcalls with
    | reset warnings pass => exact reset_inPass htidy htemplates
    | next _ call ih => exact ih.apply call
  exact hpass.inverse

end Reached

private def saleStep (text : Value) : Value :=
  .ofFields [("keyword", .text "Given "), ("text", text)]

/-- A feature whose second step has no text. -/
private def saleDocument : Value :=
  .ofFields [("feature", .ofFields [("children", .list [.ofFields [("background", .ofFields [
    ("steps", .list [saleStep (.text "sell 3 pears"), saleStep (.int 3)])])]])])]

/-- The feature, with a definition for its first step and a transform for what this captures. -/
private def saleStore : Store :=
  ((((BuildCall.mk (.ofString "sale.feature") saleDocument [] none).apply {}).register
    { id := "d", keyword := "Given", pattern := .text "sell (.*) pears" : Definition }).1.register
    { id := "t", keyword := "Transform", pattern := .text "^3" : Transform }).1

/-- The feature is linked twice, and fails twice; in between a pattern changes. -/
private def salePass : LinkingWork :=
  [PassCall.link "sale.feature", .definitionPattern ⟨0⟩ (.text "buy"), .link "sale.feature"].foldl
    PassCall.apply (PassCall.reset.apply { store := saleStore })

theorem Reached.linksInverse_sale : salePass.store.LinksInverse ∧
    (salePass.store.get (⟨0⟩ : Ref Step)).definition = some ⟨0⟩ ∧
    (salePass.store.get (⟨0⟩ : Ref Definition)).steps = ["sale.feature:background:step_1"] ∧
    (salePass.store.get (⟨0⟩ : Ref Transform)).steps = ["sale.feature:background:step_1"] ∧
    salePass.pass.report.failedFeatures = ["sale.feature", "sale.feature"] := by
  have hpath : FeaturePath (.ofString "sale.feature") :=
    (plainPath_ofString (by decide) (by decide)).toFeaturePath
  have hreached : Reached IsFeaturePath [.ofString "sale.feature"] saleStore := by
    refine .convert (.define (.build .empty
      ⟨.ofString "sale.feature", saleDocument, [], none⟩ ⟨hpath.proper, hpath.ending⟩
      List.not_mem_nil) _ ?_) _ ?_
    · intro e he
      have hnone : ((BuildCall.mk (.ofString "sale.feature") saleDocument [] none).apply
        {}).catalog.find? "d" = none := by decide +kernel
      rw [show _ = some e from he] at hnone
      cases hnone
    · intro e he
      have hnone : (((BuildCall.mk (.ofString "sale.feature") saleDocument [] none).apply {}).register
        { id := "d", keyword := "Given", pattern := .text "sell (.*) pears" :
          Definition }).1.catalog.find? "t" = none := by decide +kernel
      rw [show _ = some e from he] at hnone
      cases hnone
  have hcalls : Calls saleStore salePass := Calls.sequence (.reset [] {}) _
  exact ⟨hreached.linksInverse hcalls, by decide +kernel, by decide +kernel, by decide +kernel,
    by decide +kernel⟩

end StepTrace
