import StepTrace.Trace.Job

/-!
# Running actions that may be refused

All actions of the project work on a state and may be refused, which leaves the state that has been
reached.
-/

namespace StepTrace

namespace Action

variable {ε σ α β : Type} {x : ExceptT ε (StateM σ) α} {f : α → ExceptT ε (StateM σ) β} {w w' : σ}

theorem run_bind (x : ExceptT ε (StateM σ) α) (f : α → ExceptT ε (StateM σ) β) (w : σ) :
    (x >>= f).run w = match x.run w with
      | (.ok a, w') => (f a).run w'
      | (.error fault, w') => (.error fault, w') := by
  rw [ExceptT.run_bind]
  simp only [Bind.bind, StateT.bind]
  rcases x.run w with ⟨_ | _, w'⟩ <;> rfl

/-- What comes after an action that is not refused. -/
theorem run_bind_ok {a : α} (h : x.run w = (.ok a, w')) : (x >>= f).run w = (f a).run w' := by
  rw [run_bind, h]

theorem run_bind_error {fault : ε} (h : x.run w = (.error fault, w')) :
    (x >>= f).run w = (.error fault, w') := by
  rw [run_bind, h]

/-- An action that is not refused consists of two that are not. -/
theorem run_bind_eq_ok {b : β} (h : (x >>= f).run w = (.ok b, w')) :
    ∃ a w₁, x.run w = (.ok a, w₁) ∧ (f a).run w₁ = (.ok b, w') := by
  rw [run_bind] at h
  rcases hx : x.run w with ⟨fault | a, w₁⟩
  · rw [hx] at h
    cases h
  · rw [hx] at h
    exact ⟨a, w₁, rfl, h⟩

/-- A loop comes to its end if every round does; `P` holds of the elements done so far. -/
theorem run_forM {f : α → ExceptT ε (StateM σ) Unit} (P : List α → σ → Prop) (xs : List α)
    (hround : ∀ done x rest w, xs = done ++ x :: rest → P done w →
      ∃ w', (f x).run w = (.ok (), w') ∧ P (done ++ [x]) w')
    (h : P [] w) : ∃ w', (xs.forM f).run w = (.ok (), w') ∧ P xs w' := by
  suffices hloop : ∀ rest done w, xs = done ++ rest → P done w →
      ∃ w', (rest.forM f).run w = (.ok (), w') ∧ P xs w' from hloop xs [] w rfl h
  intro rest
  induction rest with
  | nil =>
      intro done w heq hdone
      rw [List.append_nil] at heq
      exact ⟨w, rfl, heq ▸ hdone⟩
  | cons x rest ih =>
      intro done w heq hdone
      obtain ⟨w₁, hrun₁, hdone₁⟩ := hround done x rest w heq hdone
      obtain ⟨w', hrun, hend⟩ := ih (done ++ [x]) w₁ (by simp [heq]) hdone₁
      refine ⟨w', ?_, hend⟩
      rw [show (x :: rest).forM f = (f x >>= fun _ => rest.forM f) from rfl, run_bind_ok hrun₁]
      exact hrun

end Action

namespace Job

theorem store_run (w : Work) : store.run w = (.ok w.store, w) :=
  rfl

theorem warn_run (warnings : List Warning) (w : Work) :
    (warn warnings).run w = (.ok (), { w with warnings := w.warnings ++ warnings }) :=
  rfl

theorem build_run {α : Type} (action : Build α) (w : Work) :
    (build action).run w = ((action.run w.store).1, { w with store := (action.run w.store).2 }) :=
  rfl

/-- A build that is refused does not end the job. -/
theorem attempt_run {α : Type} (action : Build α) (w : Work) : (attempt action).run w =
    (.ok (action.run w.store).1, { w with store := (action.run w.store).2 }) :=
  rfl

end Job

end StepTrace
