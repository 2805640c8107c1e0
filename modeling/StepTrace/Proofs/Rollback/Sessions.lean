import StepTrace.Proofs.Rollback.Kept

/-!
# Sessions with rollbacks

A session builds documents, takes checkpoints, and goes back to checkpoints that it has taken, in
any order; a build may be refused at any point, and going back to one checkpoint does not make the
others useless.  However a session goes on after a checkpoint, going back to that one restores the
registry, as long as no file is built anew that was registered there.

One step keeps what was registered and leaves all checkpoints good to go back to (`Sound.step`);
the rest is an induction on the steps.
-/

namespace StepTrace

open Store

/-- The registry that calls leave, one after the other. -/
def Store.afterCalls (s : Store) (calls : List BuildCall) : Store :=
  calls.foldl (fun s call => call.apply s) s

inductive SessionStep where
  | build (call : BuildCall)
  | checkpoint
  /-- Goes back to the checkpoint with the number; the session keeps all its checkpoints. -/
  | rollback (number : Nat)

/-- A registry with the checkpoints that were taken of it. -/
structure Session where
  store : Store
  checkpoints : List Snapshot

namespace Session

def step (session : Session) : SessionStep → Session
  | .build call => { session with store := call.apply session.store }
  | .checkpoint =>
    { session with checkpoints := session.checkpoints ++ [session.store.snapshot] }
  | .rollback number =>
    match session.checkpoints[number]? with
    | some snap => { session with store := (snap.rollback.run session.store).2 }
    | none => session

def run (session : Session) (steps : List SessionStep) : Session :=
  steps.foldl step session

end Session

variable {s₀ s : Store} {session : Session}

/-! ## Calls -/

theorem Store.Orderly.afterCalls (hs : Orderly PlainName False s) (calls : List BuildCall)
    (hcalls : ∀ call ∈ calls, PlainPath call.file) :
    Orderly PlainName False (s.afterCalls calls) := by
  induction calls generalizing s with
  | nil => exact hs
  | cons call calls ih =>
      have hfile := hcalls call (List.mem_cons_self ..)
      have hleft := call.apply_left hs.toSorted (fun _ => PlainName.featureFile)
        hfile.toFeaturePath
      refine ih (hs.featureLeft (fun _ => PlainName.featureFile) ⟨_, hfile, rfl⟩ hleft) ?_
      exact fun call' hcall' => hcalls call' (List.mem_cons_of_mem _ hcall')

/-! ## Steps of a session -/

namespace Session

/-- The session has kept what was registered in `s₀`, and can go back to every checkpoint. -/
structure Sound (s₀ : Store) (session : Session) : Prop where
  pure : Pure session.store
  kept : Kept s₀ session.store
  valid : ∀ snap ∈ session.checkpoints, snap.Valid
  since : ∀ snap ∈ session.checkpoints, snap.Since s₀

/-- The step builds no file that was registered in `s₀`. -/
def Fresh (s₀ : Store) : SessionStep → Prop
  | .build call => PlainPath call.file ∧ call.file.toString ∉ s₀.catalog.ids
  | .checkpoint | .rollback _ => True

theorem Sound.start (hs₀ : Pure s₀) : Sound s₀ ⟨s₀, [s₀.snapshot]⟩ := by
  have hkept : Kept s₀ s₀ := .refl hs₀.consistent
  refine ⟨hs₀, hkept, ?_, ?_⟩
  · rintro snap hsnap
    rw [List.mem_singleton.mp hsnap]
    exact Pure.snapshot_valid hs₀
  · rintro snap hsnap
    rw [List.mem_singleton.mp hsnap]
    exact hkept.snapshot_since hs₀

theorem Sound.step (h : Sound s₀ session) (hs₀ : Orderly PlainName False s₀) {action : SessionStep}
    (hfresh : Fresh s₀ action) : Sound s₀ (session.step action) := by
  cases action with
  | build call =>
      obtain ⟨hfile, hfree⟩ := hfresh
      have hname : PlainName call.file.toString := ⟨_, hfile, rfl⟩
      have hleft := call.apply_left h.pure (fun _ => PlainName.featureFile) hfile.toFeaturePath
      exact ⟨h.pure.featureLeft (fun _ => PlainName.featureFile) hname hleft,
        h.kept.featureLeft hs₀ h.pure hname hfree hleft, h.valid, h.since⟩
  | checkpoint =>
      refine ⟨h.pure, h.kept, ?_, ?_⟩
      · intro snap hsnap
        rcases List.mem_append.mp hsnap with hold | hnew
        · exact h.valid snap hold
        · rw [List.mem_singleton.mp hnew]
          exact Pure.snapshot_valid h.pure
      · intro snap hsnap
        rcases List.mem_append.mp hsnap with hold | hnew
        · exact h.since snap hold
        · rw [List.mem_singleton.mp hnew]
          exact h.kept.snapshot_since h.pure
  | rollback number =>
      cases hnumber : session.checkpoints[number]? with
      | none =>
          have hstay : session.step (.rollback number) = session := by
            simp only [Session.step, hnumber]
          rw [hstay]
          exact h
      | some snap =>
          have hmem := List.mem_of_getElem? hnumber
          have hvalid := h.valid snap hmem
          obtain ⟨s', hrun, hback⟩ := Snapshot.rollback_run h.pure.consistent h.pure.labelled
            (hvalid.covers h.pure)
          have hgone : session.step (.rollback number) = { session with store := s' } := by
            simp only [Session.step, hnumber, hrun]
          rw [hgone]
          exact ⟨Pure.rolledBack hback h.pure hvalid,
            h.kept.rolledBack hback h.pure (h.since snap hmem), h.valid, h.since⟩

theorem Sound.run (h : Sound s₀ session) (hs₀ : Orderly PlainName False s₀)
    (steps : List SessionStep) (hfresh : ∀ action ∈ steps, Fresh s₀ action) :
    Sound s₀ (session.run steps) := by
  induction steps generalizing session with
  | nil => exact h
  | cons action steps ih =>
      refine ih (h.step hs₀ (hfresh action (List.mem_cons_self ..))) ?_
      exact fun action' hmem => hfresh action' (List.mem_cons_of_mem _ hmem)

/-- **A session that goes back to a checkpoint restores the registry**: the checkpoint is taken of a
registry that builds have left, and since then no file was built that was registered. -/
theorem rollback_restores (calls : List BuildCall) (steps : List SessionStep)
    (hcalls : ∀ call ∈ calls, PlainPath call.file)
    (hfresh : ∀ action ∈ steps, Fresh (Store.afterCalls {} calls) action) :
    ∃ s, (Store.afterCalls {} calls).snapshot.rollback.run
        (run ⟨Store.afterCalls {} calls, [(Store.afterCalls {} calls).snapshot]⟩ steps).store =
          (.ok (), s) ∧
      Restored (Store.afterCalls {} calls) s ∧
      (Store.afterCalls {} calls).snapshot.rollback.run s = (.ok (), s) := by
  have hs₀ : Orderly PlainName False (Store.afterCalls {} calls) := orderly_empty.afterCalls calls hcalls
  set s₀ := Store.afterCalls {} calls
  have hvalid : s₀.snapshot.Valid := Pure.snapshot_valid hs₀.toSorted
  have hsound := (Sound.start hs₀.toSorted).run hs₀ steps hfresh
  obtain ⟨s, hrun, hback⟩ := Snapshot.rollback_run hsound.pure.consistent hsound.pure.labelled
    (hvalid.covers hsound.pure)
  have hrestored := hsound.kept.restored hs₀.toSorted hsound.pure hback
  have hpure : Pure s := Pure.rolledBack hback hsound.pure hvalid
  exact ⟨s, hrun, hrestored, hrestored.rollback_run hs₀.toSorted hpure⟩

/-- The call that builds a document with one tagged scenario and one step. -/
private def smallCall (file : String) (stepFields : List (String × Value)) : BuildCall where
  file := .ofString file
  content := .ofFields [("feature", .ofFields [
    ("tags", .list [.ofFields [("name", .text "@smoke")]]),
    ("children", .list [.ofFields [("scenario", .ofFields [
      ("steps", .list [.ofFields stepFields])])]])])]
  excluded := []
  readMe := some (.ok "Orders")

private def givenStep : List (String × Value) :=
  [("keyword", .text "Given "), ("text", .text "an order")]

/-- After a build that is refused at its step, and one that has been undone already. -/
theorem rollback_restores_small :
    let s₀ := Store.afterCalls {} [smallCall "shop/order.feature" givenStep]
    let steps : List SessionStep :=
      [.build (smallCall "shop/basket.feature" []), .checkpoint,
        .build (smallCall "pay.feature" givenStep), .rollback 1,
        .build (smallCall "pay.feature" givenStep)]
    ∃ s, s₀.snapshot.rollback.run (run ⟨s₀, [s₀.snapshot]⟩ steps).store = (.ok (), s) ∧
      Restored s₀ s ∧ s₀.snapshot.rollback.run s = (.ok (), s) := by
  refine rollback_restores [smallCall "shop/order.feature" givenStep] _ ?_ ?_
  · intro call hcall
    rw [List.mem_singleton.mp hcall]
    exact plainPath_ofString (by decide) (by decide)
  · have hfree : ∀ file ∈ ["shop/basket.feature", "pay.feature"], file ∉
        (Store.afterCalls {} [smallCall "shop/order.feature" givenStep]).catalog.ids := by
      decide +kernel
    intro action haction
    simp only [List.mem_cons, List.not_mem_nil, or_false] at haction
    rcases haction with rfl | rfl | rfl | rfl | rfl
    · exact ⟨plainPath_ofString (by decide) (by decide), hfree _ (by decide)⟩
    · trivial
    · exact ⟨plainPath_ofString (by decide) (by decide), hfree _ (by decide)⟩
    · trivial
    · exact ⟨plainPath_ofString (by decide) (by decide), hfree _ (by decide)⟩

end Session

end StepTrace
