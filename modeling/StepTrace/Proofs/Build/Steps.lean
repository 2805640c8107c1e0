import StepTrace.Proofs.Build.Ensures
import StepTrace.Proofs.Build.Parts
import StepTrace.Proofs.Build.Tagging
import StepTrace.Proofs.Nodes

/-!
# Steps and rows

What the builders of steps and of rows leave behind, whether they come to their end or not: the
container has grown by steps that are registered under their numbers (`StepsBuilt`), the outline by
scenarios that are registered with their steps (`OutlineBuilt`).
-/

namespace StepTrace

/-- A container as an entry. -/
def Container.entry : Container → Entry
  | scenario r => .scenario r
  | outline r => .outline r

/-- The record without its steps. -/
def Content.stepless : Content → Content
  | scenario x => .scenario { x with steps := [] }
  | outline x => .outline { x with steps := [] }
  | c => c

namespace Build

open Store

/-! ## Adding a step to a container -/

/-- The store with a step added to a container. -/
def pushStep (s : Store) (container : Container) (step : Ref Step) : Store :=
  match container with
  | .scenario r => s.modify r fun x => { x with steps := x.steps ++ [step] }
  | .outline r => s.modify r fun x => { x with steps := x.steps ++ [step] }

theorem addStep_eq (container : Container) (step : Ref Step) :
    addStep container step = modify fun s => pushStep s container step := by
  cases container <;> rfl

theorem containerId_eq (s : Store) (container : Container) :
    containerId s container = s.idOf container.entry := by
  cases container <;> rfl

variable {region : String → Entry → Prop} {s s' : Store} {c : Container}

theorem pushStep_grows (s : Store) (c : Container) (step : Ref Step) :
    Grows region (· = c.entry) s (pushStep s c step) := by
  cases c <;> exact Grows.modify_hole (fun _ => rfl) rfl

theorem containerSteps_pushStep (hc : s.Has c.entry) (step : Ref Step) :
    containerSteps (pushStep s c step) c = containerSteps s c ++ [step] := by
  cases c with
  | scenario r => exact congrArg Scenario.steps (get_modify_self s r _ hc)
  | outline r => exact congrArg Outline.steps (get_modify_self s r _ hc)

theorem stepless_pushStep (hc : s.Has c.entry) (step : Ref Step) :
    ((pushStep s c step).content c.entry).stepless = (s.content c.entry).stepless := by
  cases c with
  | scenario r =>
      have h := content_modify_self s r
        (fun x : Scenario => { x with steps := x.steps ++ [step] }) hc
      exact (congrArg Content.stepless h :)
  | outline r =>
      have h := content_modify_self s r
        (fun x : Outline => { x with steps := x.steps ++ [step] }) hc
      exact (congrArg Content.stepless h :)

theorem containerSteps_of_content_eq (h : s'.content c.entry = s.content c.entry) :
    containerSteps s' c = containerSteps s c := by
  cases c with
  | scenario r =>
      have hget : s'.get r = s.get r := get_eq_of_content_eq h
      simp only [containerSteps, hget]
  | outline r =>
      have hget : s'.get r = s.get r := get_eq_of_content_eq h
      simp only [containerSteps, hget]

/-! ## Building steps -/

theorem stepOf_ok {node : Value} {id scenarioId file : String} {x : Step}
    (h : stepOf node id scenarioId file = .ok x) : x.id = id ∧ x.scenarioId = scenarioId := by
  simp only [stepOf, bind, Except.bind] at h
  repeat' split at h
  all_goals cases h
  all_goals exact ⟨rfl, rfl⟩

/-- The container has grown by placed steps; nothing else of it has changed. -/
structure StepsBuilt (c : Container) (s s' : Store) : Prop where
  grows : Grows (PartsBelow (s.idOf c.entry)) (· = c.entry) s s'
  placed : s'.StepsPlaced (s.idOf c.entry) (containerSteps s' c)
  stepless : (s'.content c.entry).stepless = (s.content c.entry).stepless

theorem StepsBuilt.trans {s'' : Store} (hc : s.Has c.entry) (h : StepsBuilt c s s')
    (h' : StepsBuilt c s' s'') : StepsBuilt c s s'' := by
  have hid := h.grows.idOf hc
  obtain ⟨hgrows, hplaced, hstepless⟩ := h'
  rw [hid] at hgrows hplaced
  exact ⟨h.grows.trans hgrows (fun _ _ => id) fun _ heq _ => heq, hplaced,
    hstepless.trans h.stepless⟩

theorem step_built (hc : s.Has c.entry)
    (hplaced : s.StepsPlaced (s.idOf c.entry) (containerSteps s c)) (site : Site) (node : Value) :
    Ensures (step site c node) s (StepsBuilt c s) fun _ s' => ∃ r,
      containerSteps s' c = containerSteps s c ++ [r] ∧ Admits (· = .step r) s s' := by
  unfold step
  rw [ensures_bind_get, containerId_eq]
  refine ensures_bind_check ⟨.refl s, hplaced, rfl⟩ fun x hx => ?_
  rw [ensures_bind_register, addStep_eq]
  obtain ⟨hid, howner⟩ := stepOf_ok hx
  rw [part_step] at hid
  set owner := s.idOf c.entry
  set label := stepLabel ((containerSteps s c).length + 1) with hlabel
  set s₁ := (s.register x).1
  set r := (s.register x).2
  have hregister : Grows (PartsUnder (part owner label)) untouched s s₁ :=
    .register_part s hid fun _ => trivial
  have hpush : Grows nowhere (· = c.entry) s₁ (pushStep s₁ c r) := pushStep_grows s₁ c r
  have hstep : ∀ r, Entry.step r ≠ c.entry := by cases c <;> exact nofun
  have hsteps : containerSteps s₁ c = containerSteps s c :=
    containerSteps_of_content_eq (content_register_of_has x hc)
  have hadded : containerSteps (pushStep s₁ c r) c = containerSteps s c ++ [r] := by
    rw [containerSteps_pushStep (hregister.has hc), hsteps]
  have hadmits : Admits (· = .step r) s s₁ := .register s rfl
  refine ensures_modify ⟨?_, ?_, ?_⟩ ⟨r, hadded, hadmits.trans (.nowhere hpush)⟩
  · have hbelow : Grows (PartsBelow owner) (· = c.entry) s s₁ :=
      hregister.mono (fun _ _ => PartsBelow.of_part (isLabel_step _)) fun _ => False.elim
    exact hbelow.trans hpush (fun _ _ => False.elim) fun _ heq _ => heq
  · rw [hadded]
    have hold : s₁.StepsPlaced owner (containerSteps s c) :=
      hplaced.grows_part hregister (isLabel_step _) (fun _ => stepLabel_ne_next) fun _ => id
    refine Numbered.append (hold.grows hpush (fun _ _ _ _ _ => id) hstep) ⟨?_, ?_⟩
    · have hnew := placed_register s x
      rw [show Record.id x = part owner label from hid] at hnew
      exact hnew.grows hpush fun _ => id
    · rw [hpush.get_step (has_register_self s x) (hstep r), get_register_self, howner]
  · rw [stepless_pushStep (hregister.has hc), content_register_of_has x hc]

/-- **The steps of a node are registered under their numbers**, one for each of its elements, and
nothing else comes in. -/
theorem steps_built (hc : s.Has c.entry)
    (hplaced : s.StepsPlaced (s.idOf c.entry) (containerSteps s c)) (site : Site) (node : Value) :
    Ensures (steps site node c) s (StepsBuilt c s) fun _ s' => ∃ refs,
      refs.length = (node.itemsOf "steps").length ∧
      containerSteps s' c = containerSteps s c ++ refs ∧ Admits (∃ r ∈ refs, · = .step r) s s' := by
  have hinit : StepsBuilt c s s := ⟨.refl s, hplaced, rfl⟩
  unfold steps
  refine ensures_bind_check hinit fun nodes hnodes => ?_
  rw [Value.itemsOf_eq hnodes]
  refine (Ensures.forM (fun done s' => ∃ refs, refs.length = done.length ∧
    containerSteps s' c = containerSteps s c ++ refs ∧ Admits (∃ r ∈ refs, · = .step r) s s')
    hinit ⟨[], rfl, (List.append_nil _).symm, .refl s⟩ ?_).weaken (fun _ => id) fun _ _ _ => id
  rintro done node _ s' - h' ⟨refs, hlength, hsteps, hadmits⟩
  have hplaced' := h'.placed
  rw [← h'.grows.idOf hc] at hplaced'
  refine (step_built (h'.grows.has hc) hplaced' site node).weaken (fun _ h => h'.trans hc h) ?_
  rintro _ s'' - ⟨r, hadded, hnext⟩
  refine ⟨refs ++ [r], by simp [hlength], by rw [hadded, hsteps, List.append_assoc],
    (hadmits.mono ?_).trans (hnext.mono ?_)⟩
  · rintro e ⟨r', hr', he⟩
    exact ⟨r', List.mem_append_left _ hr', he⟩
  · rintro e rfl
    exact ⟨r, List.mem_append_right _ (List.mem_singleton_self r), rfl⟩

end Build

end StepTrace
