import StepTrace.Proofs.Action
import StepTrace.Trace.Store

/-!
# What an action ensures

An action that is refused keeps what it did before, so its effect is described by two statements:
one about the store that it leaves in any case, and one about its result and the store if it is not
refused.  `Ensures x s I Q` says both, for the action `x` from the store `s`.

The rules follow the way in which actions are put together.  Reading, changing and registering are
executed on the spot (`ensures_bind_read`, `ensures_bind_change`, `ensures_bind_register`); for a
loop one states what holds after each element (`Ensures.forM`, `Ensures.mapM`).
-/

namespace StepTrace.Build

variable {α β : Type}

/-- From `s` the action leaves a store with `I` and, if it is not refused, with `Q` of its
result. -/
def Ensures (x : Build α) (s : Store) (I : Store → Prop) (Q : α → Store → Prop) : Prop :=
  I (x.run s).2 ∧ ∀ a, (x.run s).1 = .ok a → Q a (x.run s).2

namespace Ensures

variable {x : Build α} {f : α → Build β} {s : Store} {I I' : Store → Prop}
variable {Q Q' : α → Store → Prop} {R : β → Store → Prop}

theorem pure {a : α} (hI : I s) (hQ : Q a s) : Ensures (Pure.pure a) s I Q := by
  refine ⟨hI, ?_⟩
  rintro _ ⟨⟩
  exact hQ

theorem throw {fault : Fault} (hI : I s) : Ensures (MonadExcept.throw fault : Build α) s I Q := by
  refine ⟨hI, ?_⟩
  rintro _ ⟨⟩

theorem bind (hx : Ensures x s I Q) (hf : ∀ a s', I s' → Q a s' → Ensures (f a) s' I R) :
    Ensures (x >>= f) s I R := by
  obtain ⟨hI, hQ⟩ := hx
  unfold Ensures
  rw [Action.run_bind]
  rcases hresult : x.run s with ⟨fault | a, s'⟩
  · rw [hresult] at hI
    refine ⟨hI, ?_⟩
    rintro _ ⟨⟩
  · rw [hresult] at hI hQ
    exact hf a s' hI (hQ a rfl)

theorem weaken (hx : Ensures x s I Q) (hI : ∀ s', I s' → I' s')
    (hQ : ∀ a s', I s' → Q a s' → Q' a s') : Ensures x s I' Q' :=
  ⟨hI _ hx.1, fun a ha => hQ a _ hx.1 (hx.2 a ha)⟩

theorem and (hx : Ensures x s I Q) (hx' : Ensures x s I' Q') :
    Ensures x s (fun s' => I s' ∧ I' s') fun a s' => Q a s' ∧ Q' a s' :=
  ⟨⟨hx.1, hx'.1⟩, fun a ha => ⟨hx.2 a ha, hx'.2 a ha⟩⟩

/-- What holds in any case also holds of a success. -/
theorem keep (hx : Ensures x s I Q) : Ensures x s I fun a s' => I s' ∧ Q a s' :=
  ⟨hx.1, fun a ha => ⟨hx.1, hx.2 a ha⟩⟩

/-- What the first action leaves is known exactly, though less is wanted of the whole. -/
theorem bind_of (hx : Ensures x s I Q) (hI : ∀ s', I s' → I' s')
    (hf : ∀ a s', I s' → Q a s' → Ensures (f a) s' I' R) : Ensures (x >>= f) s I' R :=
  bind (hx.keep.weaken hI fun _ _ _ h => h) fun a s' _ h => hf a s' h.1 h.2

/-- A loop, with what holds after the elements that it has gone through. -/
theorem forM {xs : List α} {f : α → Build PUnit} (J : List α → Store → Prop) (hI : I s)
    (hJ : J [] s)
    (hstep : ∀ done x rest s', xs = done ++ x :: rest → I s' → J done s' →
      Ensures (f x) s' I fun _ s'' => J (done ++ [x]) s'') :
    Ensures (xs.forM f) s I fun _ s' => J xs s' := by
  suffices h : ∀ done s', I s' → J done s' → ∀ rest, xs = done ++ rest →
      Ensures (rest.forM f) s' I fun _ s'' => J xs s'' from h [] s hI hJ xs rfl
  intro done s' hI hJ rest hrest
  induction rest generalizing done s' with
  | nil =>
      have hdone : xs = done := by simpa using hrest
      exact pure hI (hdone ▸ hJ)
  | cons x rest ih =>
      refine bind (hstep done x rest s' hrest hI hJ) fun _ s'' hI'' hJ'' => ?_
      exact ih (done ++ [x]) s'' hI'' hJ'' (by rw [hrest, List.append_assoc]; rfl)

/-- A loop that collects results, with what holds after the elements that it has gone through. -/
theorem mapM {xs : List α} {f : α → Build β} (J : List α → List β → Store → Prop) (hI : I s)
    (hJ : J [] [] s)
    (hstep : ∀ done results x rest s', xs = done ++ x :: rest → I s' → J done results s' →
      Ensures (f x) s' I fun y s'' => J (done ++ [x]) (results ++ [y]) s'') :
    Ensures (xs.mapM f) s I fun ys s' => J xs ys s' := by
  suffices h : ∀ done results s', I s' → J done results s' → ∀ rest, xs = done ++ rest →
      Ensures (rest.mapM f) s' I fun ys s'' => J xs (results ++ ys) s'' by
    simpa using h [] [] s hI hJ xs rfl
  intro done results s' hI hJ rest hrest
  induction rest generalizing done results s' with
  | nil =>
      have hdone : xs = done := by simpa using hrest
      rw [List.mapM_nil]
      refine pure hI ?_
      rwa [hdone, List.append_nil]
  | cons x rest ih =>
      rw [List.mapM_cons]
      refine bind (hstep done results x rest s' hrest hI hJ) fun y s'' hI'' hJ'' => ?_
      have hrest' : xs = done ++ [x] ++ rest := by rw [hrest, List.append_assoc]; rfl
      refine bind (ih (done ++ [x]) (results ++ [y]) s'' hI'' hJ'' hrest') ?_
      intro ys s₃ hI₃ hJ₃
      refine pure hI₃ ?_
      rwa [List.append_assoc] at hJ₃

end Ensures

section

variable {f : α → Build β} {s : Store} {I : Store → Prop} {R : β → Store → Prop}

theorem ensures_bind_check {result : Except Fault α} (hI : I s)
    (hf : ∀ a, result = .ok a → Ensures (f a) s I R) : Ensures (check result >>= f) s I R := by
  cases result with
  | ok a => exact hf a rfl
  | error fault => exact Ensures.throw hI

theorem ensures_bind_some? {fault : Fault} {found : Option α} (hI : I s)
    (hf : ∀ a, found = some a → Ensures (f a) s I R) :
    Ensures (some? fault found >>= f) s I R := by
  cases found with
  | some a => exact hf a rfl
  | none => exact Ensures.throw hI

theorem ensures_bind_get {f : Store → Build β} :
    Ensures (get >>= f) s I R ↔ Ensures (f s) s I R :=
  Iff.rfl

theorem ensures_bind_modify {f : PUnit → Build β} {g : Store → Store} :
    Ensures (modify g >>= f) s I R ↔ Ensures (f ⟨⟩) (g s) I R :=
  Iff.rfl

theorem ensures_modify {Q : PUnit → Store → Prop} {g : Store → Store} (hI : I (g s))
    (hQ : Q ⟨⟩ (g s)) : Ensures (modify g) s I Q :=
  ⟨hI, fun _ _ => hQ⟩

end

section

variable {γ : Type} [Record γ] {s : Store} {I : Store → Prop} {R : β → Store → Prop}

theorem ensures_bind_read {f : γ → Build β} {r : Ref γ} :
    Ensures (read r >>= f) s I R ↔ Ensures (f (s.get r)) s I R :=
  Iff.rfl

theorem ensures_bind_change {f : PUnit → Build β} {r : Ref γ} {g : γ → γ} :
    Ensures (change r g >>= f) s I R ↔ Ensures (f ⟨⟩) (s.modify r g) I R :=
  Iff.rfl

theorem ensures_change {Q : PUnit → Store → Prop} {r : Ref γ} {g : γ → γ} (hI : I (s.modify r g))
    (hQ : Q ⟨⟩ (s.modify r g)) : Ensures (change r g) s I Q :=
  ⟨hI, fun _ _ => hQ⟩

theorem ensures_bind_register {f : Ref γ → Build β} {x : γ} :
    Ensures (register x >>= f) s I R ↔ Ensures (f (s.register x).2) (s.register x).1 I R :=
  Iff.rfl

end

end StepTrace.Build
