import StepTrace.Linking.Pass
import StepTrace.Proofs.Registry.Wellformed

/-!
# What a pass can change

Whatever happens in a pass, it changes links and nothing else: the registrations stay, and so do all
records up to the definition and the transforms of a step and the steps of a definition or transform
(`Rewired`).  This holds of each operation, and hence of a pass that fails at any point.

For a list of records that are all changed in the same way, as resetting does it, `foldl_modify` says
what comes out.
-/

namespace StepTrace

/-- The record without its links. -/
def Content.bare : Content → Content
  | step x => step { x with definition := none, transforms := [] }
  | definition x => definition { x with steps := [] }
  | transform x => transform { x with steps := [] }
  | c => c

theorem Content.unlinked_eq_of_bare_eq {c c' : Content} (h : c.bare = c'.bare) :
    c.unlinked = c'.unlinked := by
  have hbare : ∀ c : Content, c.unlinked = c.bare.unlinked := by
    intro c
    cases c <;> rfl
  rw [hbare, h, ← hbare]

theorem Content.bare_id (c : Content) : c.bare.id = c.id := by
  cases c <;> rfl

namespace Store

/-- Nothing but links has changed. -/
structure Rewired (s s' : Store) : Prop where
  catalog : s'.catalog = s.catalog
  has : ∀ e, s'.Has e ↔ s.Has e
  content : ∀ {e}, s.Has e → (s'.content e).bare = (s.content e).bare

namespace Rewired

variable {s s' s'' : Store}

theorem refl (s : Store) : Rewired s s :=
  ⟨rfl, fun _ => Iff.rfl, fun _ => rfl⟩

theorem trans (h : Rewired s s') (h' : Rewired s' s'') : Rewired s s'' where
  catalog := h'.catalog.trans h.catalog
  has e := (h'.has e).trans (h.has e)
  content he := (h'.content ((h.has _).mpr he)).trans (h.content he)

theorem idOf (h : Rewired s s') {e : Entry} (he : s.Has e) : s'.idOf e = s.idOf e := by
  have hid := congrArg Content.id (h.content he)
  rwa [Content.bare_id, Content.bare_id, ← idOf_eq, ← idOf_eq] at hid

theorem modify {α : Type} [Record α] [HeapRecord α] (s : Store) (r : Ref α) {f : α → α}
    (hf : ∀ x, (HeapRecord.wrap (f x)).bare = (HeapRecord.wrap x).bare) :
    Rewired s (s.modify r f) where
  catalog := catalog_modify s r f
  has := has_modify s r f
  content := by
    intro e he
    by_cases heq : e = Record.entry r
    · subst heq
      rw [content_modify_self s r f he, hf, ← HeapRecord.content_entry]
    · rw [content_modify_of_ne s r f heq]

theorem foldl {β : Type} {f : Store → β → Store} (hf : ∀ s x, Rewired s (f s x)) (s : Store)
    (xs : List β) : Rewired s (xs.foldl f s) := by
  induction xs generalizing s with
  | nil => exact .refl s
  | cons x xs ih => exact (hf s x).trans (ih _)

theorem relinked (h : Rewired s s') (hc : s.catalog.Consistent) (hlabelled : s.Labelled) :
    Relinked True s s' where
  find? he _ := by rwa [h.catalog]
  has he _ := (h.has _).mpr (hlabelled he).has
  content he _ := Content.unlinked_eq_of_bare_eq (h.content (hlabelled he).has)
  consistent := by rwa [h.catalog]
  old he _ := by rwa [h.catalog] at he
  target := by
    intro id e he _
    rw [h.catalog] at he
    have hplaced := hlabelled he
    exact ⟨trivial, (h.has _).mpr hplaced.has, (h.idOf hplaced.has).trans hplaced.idOf,
      by rwa [h.catalog]⟩

theorem steady (h : Rewired s s') : Steady s s' :=
  fun _ he _ => ⟨(h.has _).mpr he, Content.unlinked_eq_of_bare_eq (h.content he)⟩

end Rewired

/-! ## Changing all records of a list -/

section

variable {α : Type} [Record α] [HeapRecord α]

theorem foldl_modify {f : α → α} (hf : ∀ x, f (f x) = f x) (refs : List (Ref α)) (s : Store)
    (hrefs : ∀ r ∈ refs, s.Has (Record.entry r)) :
    (∀ r ∈ refs, (refs.foldl (fun s r => s.modify r f) s).get r = f (s.get r)) ∧
      ∀ e, (∀ r ∈ refs, e ≠ Record.entry r) →
        (refs.foldl (fun s r => s.modify r f) s).content e = s.content e := by
  induction refs generalizing s with
  | nil => exact ⟨nofun, fun _ _ => rfl⟩
  | cons r refs ih =>
      obtain ⟨hself, hother⟩ := ih (s.modify r f) fun r' hr' =>
        (has_modify s r f _).mpr (hrefs r' (List.mem_cons_of_mem _ hr'))
      have hr : s.Has (Record.entry r) := hrefs r (List.mem_cons_self ..)
      refine ⟨?_, ?_⟩
      · intro r' hr'
        rw [List.foldl_cons]
        by_cases hlater : r' ∈ refs
        · rw [hself r' hlater]
          by_cases heq : r' = r
          · subst heq
            rw [get_modify_self s r' f hr, hf]
          · rw [get_eq_of_content_eq (content_modify_of_ne s r f
              fun hentry => heq (HeapRecord.entry_injective hentry))]
        · obtain rfl : r' = r := (List.mem_cons.mp hr').resolve_right hlater
          have hlast := hother (Record.entry r') fun r'' hr'' hentry => hlater <| by
            rwa [HeapRecord.entry_injective hentry]
          rw [get_eq_of_content_eq hlast, get_modify_self s r' f hr]
      · intro e he
        rw [List.foldl_cons, hother e fun r' hr' => he r' (List.mem_cons_of_mem _ hr')]
        exact content_modify_of_ne s r f (he r (List.mem_cons_self ..))

end

end Store

namespace LinkingPass

open Store

/-! ## The operations of a pass -/

theorem linkDefinition_rewired (step : Ref Step) (s : Store) (definition : Ref Definition) :
    Rewired s (linkDefinition step s definition) := by
  unfold linkDefinition
  dsimp only
  refine .trans (.modify s step ?_) (.modify _ definition ?_)
  all_goals exact fun _ => rfl

theorem linkTransform_rewired (step : Ref Step) (s : Store) (transform : Ref Transform) :
    Rewired s (linkTransform step s transform) := by
  unfold linkTransform
  dsimp only
  refine .trans (.modify s step ?_) (.modify _ transform ?_)
  all_goals exact fun _ => rfl

theorem unlink_rewired (s : Store) : Rewired s (unlink s) := by
  unfold unlink
  refine .trans (.trans (.foldl ?_ s _) (.foldl ?_ _ _)) (.foldl ?_ _ _)
  all_goals exact fun s r => .modify s r fun _ => rfl

/-! ## A pass as a whole -/

/-- Whatever its outcome, the action changes nothing but links. -/
def Rewires {α : Type} (x : Linking α) : Prop :=
  ∀ w, Rewired w.store (x.run w).2.store

namespace Rewires

variable {α β : Type}

theorem pure (a : α) : Rewires (Pure.pure a) :=
  fun w => .refl w.store

theorem throw (fault : Fault) : Rewires (MonadExcept.throw fault : Linking α) :=
  fun w => .refl w.store

theorem bind {x : Linking α} {f : α → Linking β} (hx : Rewires x) (hf : ∀ a, Rewires (f a)) :
    Rewires (x >>= f) := by
  intro w
  have hw := hx w
  rw [Action.run_bind]
  rcases hresult : x.run w with ⟨fault | a, w'⟩
  · rwa [hresult] at hw
  · rw [hresult] at hw
    exact hw.trans (hf a w')

theorem get : Rewires (MonadState.get : Linking LinkingWork) :=
  fun w => .refl w.store

theorem state {f : LinkingWork → LinkingWork} (hf : ∀ w, Rewired w.store (f w).store) :
    Rewires (modify f : Linking Unit) :=
  fun w => hf w

theorem forM {xs : List α} {f : α → Linking Unit} (hf : ∀ x, Rewires (f x)) :
    Rewires (xs.forM f) := by
  induction xs with
  | nil => exact .pure ()
  | cons x xs ih => exact .bind (hf x) fun _ => ih

end Rewires

theorem tell_rewires (f : LinkReport → LinkReport) : Rewires (tell f) :=
  fun w => .refl w.store

theorem job_run {α : Type} (t : Job α) (w : LinkingWork) :
    (job t).run w = ((t.run w.toWork).1, { w with toWork := (t.run w.toWork).2 }) :=
  rfl

theorem get_run (w : LinkingWork) : (get : Linking LinkingWork).run w = (.ok w, w) :=
  rfl

theorem job_rewires {α : Type} {t : Job α} (ht : ∀ w, Rewired w.store (t.run w).2.store) :
    Rewires (job t) :=
  fun w => ht w.toWork

/-- What reading one more pattern does. -/
theorem readAll_cons {α : Type} (pattern : α → Value) (x : α) (xs : List α) (w : Work) :
    (PatternCache.readAll pattern (x :: xs)).run w =
      match Linking.readPattern (pattern x) with
      | .error fault => (.error fault, w)
      | .ok (regex?, warnings) =>
        match (PatternCache.readAll pattern xs).run
          { w with warnings := w.warnings ++ warnings } with
        | (.error fault, w') => (.error fault, w')
        | (.ok rest, w') => (.ok ((regex?.map fun regex => (regex, x)).toList ++ rest), w') := by
  rw [PatternCache.readAll]
  rcases Linking.readPattern (pattern x) with fault | ⟨regex?, warnings⟩
  · rfl
  · dsimp only
    have hwarn : ∀ (f : Unit → Job (List (Regex × α))), (Job.warn warnings >>= f).run w =
        (f ()).run { w with warnings := w.warnings ++ warnings } := fun _ => rfl
    rw [hwarn, Action.run_bind]
    rcases (PatternCache.readAll pattern xs).run _ with ⟨fault | rest, w'⟩
    · rfl
    · cases regex? <;> rfl

/-- Reading patterns leaves the store as it is. -/
theorem readAll_store {α : Type} (pattern : α → Value) (xs : List α) (w : Work) :
    ((PatternCache.readAll pattern xs).run w).2.store = w.store := by
  induction xs generalizing w with
  | nil => rfl
  | cons x xs ih =>
      rw [readAll_cons]
      rcases Linking.readPattern (pattern x) with fault | ⟨regex?, warnings⟩
      · rfl
      · dsimp only
        have hrest := ih { w with warnings := w.warnings ++ warnings }
        rcases hresult : (PatternCache.readAll pattern xs).run _ with ⟨fault | rest, w'⟩
        all_goals
          rw [hresult] at hrest
          exact hrest

theorem ofStore_run (w : Work) : PatternCache.ofStore.run w = (do
    let definitions ← PatternCache.readAll (fun r => (w.store.get r).pattern) w.store.allDefinitions
    let transforms ← PatternCache.readAll (fun r => (w.store.get r).pattern) w.store.allTransforms
    return { definitions, transforms } : Job PatternCache).run w :=
  rfl

theorem ofStore_store (w : Work) : (PatternCache.ofStore.run w).2.store = w.store := by
  rw [ofStore_run, Action.run_bind]
  have hdefinitions := readAll_store (fun r => (w.store.get r).pattern) w.store.allDefinitions w
  rcases hresult : (PatternCache.readAll _ w.store.allDefinitions).run w with ⟨_ | _, w'⟩
  · rw [hresult] at hdefinitions
    exact hdefinitions
  · rw [hresult] at hdefinitions
    dsimp only at hdefinitions ⊢
    rw [Action.run_bind, ← hdefinitions]
    have htransforms := readAll_store (fun r => (w.store.get r).pattern) w.store.allTransforms w'
    rw [← hdefinitions] at htransforms
    rcases hresult' : (PatternCache.readAll _ w'.store.allTransforms).run w' with ⟨_ | _, w''⟩
    all_goals
      rw [hresult'] at htransforms
      exact htransforms

theorem linkStep_rewired (cache : PatternCache) (step : Ref Step) (w : Work) :
    Rewired w.store ((linkStep cache step).run w).2.store := by
  unfold linkStep
  rw [Action.run_bind_ok (Job.store_run w)]
  rcases cache.firstDefinition? (w.store.get step).text with fault | _ | ⟨definition, m⟩
  · exact .refl _
  · exact .refl _
  · exact (linkDefinition_rewired step w.store definition).trans
      (.foldl (linkTransform_rewired step) _ _)

theorem linkSteps_rewires (cache : PatternCache) (steps : List (Ref Step)) :
    Rewires (linkSteps cache steps) := by
  induction steps with
  | nil => exact .pure ()
  | cons step steps ih =>
      unfold linkSteps
      refine .bind (job_rewires (linkStep_rewired cache step)) fun found => ?_
      refine .bind .get fun w => ?_
      dsimp only
      split
      · exact .bind (tell_rewires _) fun _ => ih
      · exact .bind (tell_rewires _) fun _ => ih

theorem patterns_rewires : Rewires patterns := by
  unfold patterns
  refine .bind .get fun w => ?_
  split
  · exact .pure _
  · refine .bind (job_rewires fun w => ?_) fun cache => ?_
    · rw [ofStore_store]
      exact .refl _
    · exact .bind (.state fun w => .refl _) fun _ => .pure _

theorem linkScenarios_rewires (entry : Option Entry) : Rewires (linkScenarios entry) := by
  unfold linkScenarios
  refine .bind patterns_rewires fun cache => ?_
  split
  · refine .bind .get fun w => .forM fun scenario => ?_
    exact .bind .get fun w => linkSteps_rewires cache _
  · exact .throw _

theorem linkFeature_rewires (entry : Option Entry) : Rewires (linkFeature entry) := by
  intro w
  have hw := linkScenarios_rewires entry w
  have hrun : (linkFeature entry).run w = linkFeature entry w := rfl
  rw [hrun, linkFeature]
  rcases hresult : (linkScenarios entry).run w with ⟨fault | _, w'⟩
  all_goals
    rw [hresult] at hw
    dsimp only
  · split <;> exact hw
  · exact hw

theorem reset_run (w : LinkingWork) :
    reset.run w = (.ok (), { w with store := unlink w.store, pass := {} }) :=
  rfl

theorem reset_rewires : Rewires reset := by
  intro w
  rw [reset_run]
  dsimp only
  exact unlink_rewired w.store

theorem run_rewires : Rewires run := by
  unfold run
  refine .bind reset_rewires fun _ => .bind .get fun w => ?_
  refine .bind (.forM fun r => .bind (linkFeature_rewires _) fun _ => .pure ()) fun _ => ?_
  refine .bind .get fun w => .bind (tell_rewires _) fun _ => ?_
  exact .bind .get fun w => .pure _

theorem linkAll_run {w : Work} {result : Except Fault LinkReport} {done : LinkingWork}
    (h : run.run { toWork := w } = (result, done)) : linkAll.run w = (result, done.toWork) := by
  have hunfold : linkAll.run w = linkAll w := rfl
  rw [hunfold, linkAll, h]

/-- **A pass changes nothing but links**, whether it comes to its end or not. -/
theorem linkAll_rewired (w : Work) : Rewired w.store (linkAll.run w).2.store := by
  have hrewired := run_rewires { toWork := w }
  rcases hresult : run.run { toWork := w } with ⟨result, done⟩
  rw [hresult] at hrewired
  rw [linkAll_run hresult]
  exact hrewired

end LinkingPass

end StepTrace
