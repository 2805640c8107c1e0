import StepTrace.Proofs.Linking.Change

/-!
# What a step is to be linked to

The specification of linking, for one step: the first registered definition whose pattern can be
read and occurs in the text (`Store.firstMatch?`), and the transforms whose patterns occur in what it
has captured, each once and in the order in which they are found (`Store.capturedTransforms`).

The patterns that a pass has read (`PatternCache`) give the same answers.
-/

namespace StepTrace

namespace Linking

/-- The regular expression of a pattern that can be searched for. -/
def compiled? (pattern : Value) : Option Regex :=
  match readPattern pattern with
  | .ok (regex?, _) => regex?
  | .error _ => none

/-- The pattern either can be searched for, or is passed over. -/
def Readable (pattern : Value) : Prop :=
  (readPattern pattern).toBool = true

instance (pattern : Value) : Decidable (Readable pattern) :=
  inferInstanceAs (Decidable (_ = true))

theorem Readable.read {pattern : Value} (h : Readable pattern) :
    ∃ read, readPattern pattern = .ok read := by
  unfold Readable at h
  cases hread : readPattern pattern with
  | error => rw [hread] at h; cases h
  | ok read => exact ⟨read, rfl⟩

end Linking

open Linking

/-- The pattern of every registered definition and transform can be read or is passed over. -/
structure PatternsReadable (s : Store) : Prop where
  definition : ∀ d ∈ s.allDefinitions, Readable (s.get d).pattern
  transform : ∀ t ∈ s.allTransforms, Readable (s.get t).pattern

instance (s : Store) : Decidable (PatternsReadable s) :=
  decidable_of_iff ((∀ d ∈ s.allDefinitions, Readable (s.get d).pattern) ∧
      ∀ t ∈ s.allTransforms, Readable (s.get t).pattern)
    ⟨fun h => ⟨h.1, h.2⟩, fun h => ⟨h.definition, h.transform⟩⟩

namespace Store

/-- The first registered definition whose pattern occurs in the text, with the match. -/
def firstMatch? (s : Store) (text : String) : Option (Ref Definition × Regex.Match) :=
  s.allDefinitions.findSome? fun d =>
    (compiled? (s.get d).pattern).bind fun regex => (regex.search? text).map fun m => (d, m)

/-- The registered transforms whose patterns occur in the text. -/
def transformsIn (s : Store) (text : String) : List (Ref Transform) :=
  s.allTransforms.filter fun t =>
    (compiled? (s.get t).pattern).any fun regex => regex.occursIn text

/-- The transforms for what a match has captured, group by group, each once. -/
def capturedTransforms (s : Store) (m : Regex.Match) : List (Ref Transform) :=
  ((m.groups.filterMap fun group => group.filter (· ≠ "")).flatMap s.transformsIn).eraseDups

variable {s : Store}

theorem mem_allSteps (hc : s.catalog.Consistent) {r : Ref Step} :
    r ∈ s.allSteps ↔ ∃ id, s.catalog.find? id = some (.step r) := by
  rw [allSteps]
  exact hc.mem_filterMap_ofKind .step (fun e _ => by cases e <;> simp) fun _ => rfl

theorem mem_allDefinitions (hc : s.catalog.Consistent) {r : Ref Definition} :
    r ∈ s.allDefinitions ↔ ∃ id, s.catalog.find? id = some (.definition r) := by
  rw [allDefinitions]
  exact hc.mem_filterMap_ofKind .definition (fun e _ => by cases e <;> simp) fun _ => rfl

theorem mem_allTransforms (hc : s.catalog.Consistent) {r : Ref Transform} :
    r ∈ s.allTransforms ↔ ∃ id, s.catalog.find? id = some (.transform r) := by
  rw [allTransforms]
  exact hc.mem_filterMap_ofKind .transform (fun e _ => by cases e <;> simp) fun _ => rfl

theorem mem_of_firstMatch? {text : String} {d : Ref Definition} {m : Regex.Match}
    (h : s.firstMatch? text = some (d, m)) : d ∈ s.allDefinitions := by
  obtain ⟨d', hd', hfound⟩ := List.exists_of_findSome?_eq_some h
  simp only [Option.bind_eq_some_iff, Option.map_eq_some_iff, Prod.mk.injEq] at hfound
  obtain ⟨regex, -, m', -, rfl, -⟩ := hfound
  exact hd'

theorem mem_of_capturedTransforms {m : Regex.Match} {t : Ref Transform}
    (h : t ∈ s.capturedTransforms m) : t ∈ s.allTransforms := by
  rw [capturedTransforms, List.mem_eraseDups, List.mem_flatMap] at h
  obtain ⟨text, -, ht⟩ := h
  exact List.mem_of_mem_filter ht

/-! ## The patterns of a pass -/

/-- The patterns of a registry, as a pass reads them. -/
def patternCache (s : Store) : PatternCache where
  definitions := s.allDefinitions.filterMap fun d =>
    (compiled? (s.get d).pattern).map fun regex => (regex, d)
  transforms := s.allTransforms.filterMap fun t =>
    (compiled? (s.get t).pattern).map fun regex => (regex, t)

theorem firstDefinition?_patternCache (s : Store) (text : String) :
    s.patternCache.firstDefinition? (.text text) = .ok (s.firstMatch? text) := by
  have hfound : s.patternCache.firstDefinition? (.text text) =
      .ok (s.patternCache.definitions.findSome? fun entry =>
        (entry.1.search? text).map fun m => (entry.2, m)) := by
    unfold PatternCache.firstDefinition?
    split
    · rename_i hnil
      rw [hnil, List.findSome?_nil]
    · rename_i htext _
      cases htext
      rfl
    · rename_i htext
      exact absurd rfl (htext text)
  rw [hfound]
  congr 1
  unfold patternCache firstMatch?
  dsimp only
  induction s.allDefinitions with
  | nil => rfl
  | cons d definitions ih =>
      rw [List.findSome?_cons, List.filterMap_cons]
      cases hregex : compiled? (s.get d).pattern with
      | none => exact ih
      | some regex =>
          simp only [Option.map_some, List.findSome?_cons, Option.bind_some]
          rw [ih]

theorem transformsIn_patternCache (s : Store) (text : String) :
    s.patternCache.transformsIn text = s.transformsIn text := by
  unfold PatternCache.transformsIn patternCache transformsIn
  dsimp only
  induction s.allTransforms with
  | nil => rfl
  | cons t transforms ih =>
      rw [List.filterMap_cons, List.filter_cons]
      cases hregex : compiled? (s.get t).pattern with
      | none => exact ih
      | some regex =>
          simp only [Option.map_some, Option.any_some, List.filter_cons]
          split
          · rw [List.map_cons, ih]
          · exact ih

theorem transformsOf_patternCache (s : Store) (m : Regex.Match) :
    (LinkingPass.transformsOf s.patternCache m).eraseDups = s.capturedTransforms m := by
  rw [LinkingPass.transformsOf, capturedTransforms, funext s.transformsIn_patternCache]

end Store

namespace LinkingPass

/-- Readable patterns are all read. -/
theorem readAll_run {α : Type} (pattern : α → Value) (xs : List α)
    (h : ∀ x ∈ xs, Readable (pattern x)) (w : Work) :
    ∃ w', (PatternCache.readAll pattern xs).run w =
        (.ok (xs.filterMap fun x => (compiled? (pattern x)).map fun regex => (regex, x)), w') ∧
      w'.store = w.store := by
  induction xs generalizing w with
  | nil => exact ⟨w, rfl, rfl⟩
  | cons x xs ih =>
      obtain ⟨⟨regex?, warnings⟩, hread⟩ := (h x (List.mem_cons_self ..)).read
      have hcompiled : compiled? (pattern x) = regex? := by rw [compiled?, hread]
      obtain ⟨w', hrun, hstore⟩ := ih (fun x' hx' => h x' (List.mem_cons_of_mem _ hx'))
        { w with warnings := w.warnings ++ warnings }
      refine ⟨w', ?_, hstore⟩
      rw [readAll_cons, hread]
      dsimp only
      rw [hrun, List.filterMap_cons, hcompiled]
      cases regex? <;> rfl

/-- One that is not readable ends the reading. -/
theorem readAll_run_error {α : Type} (pattern : α → Value) (xs : List α)
    (h : ∃ x ∈ xs, ¬ Readable (pattern x)) (w : Work) :
    ∃ fault w', (PatternCache.readAll pattern xs).run w = (.error fault, w') := by
  induction xs generalizing w with
  | nil => simp at h
  | cons x xs ih =>
      rw [readAll_cons]
      rcases hread : readPattern (pattern x) with fault | ⟨regex?, warnings⟩
      · exact ⟨fault, w, rfl⟩
      · have hx : Readable (pattern x) := by
          unfold Readable
          rw [hread]
          rfl
        have hlater : ∃ y ∈ xs, ¬ Readable (pattern y) := by simpa [hx] using h
        obtain ⟨fault, w', hrun⟩ := ih hlater { w with warnings := w.warnings ++ warnings }
        refine ⟨fault, w', ?_⟩
        dsimp only
        rw [hrun]

/-- **A pass reads the patterns of the registry.** -/
theorem ofStore_run_ok {w : Work} (h : PatternsReadable w.store) :
    ∃ w', PatternCache.ofStore.run w = (.ok w.store.patternCache, w') ∧ w'.store = w.store := by
  obtain ⟨w₁, hrun₁, hstore₁⟩ := readAll_run (fun r => (w.store.get r).pattern)
    w.store.allDefinitions h.definition w
  obtain ⟨w₂, hrun₂, hstore₂⟩ := readAll_run (fun r => (w.store.get r).pattern)
    w.store.allTransforms h.transform w₁
  refine ⟨w₂, ?_, hstore₂.trans hstore₁⟩
  rw [ofStore_run, Action.run_bind_ok hrun₁, Action.run_bind_ok hrun₂]
  rfl

/-- It cannot if one of them is not readable. -/
theorem ofStore_run_error {w : Work} (h : ¬ PatternsReadable w.store) :
    ∃ fault w', PatternCache.ofStore.run w = (.error fault, w') ∧ w'.store = w.store := by
  suffices herror : ∃ fault w', PatternCache.ofStore.run w = (.error fault, w') by
    obtain ⟨fault, w', hrun⟩ := herror
    have hstore := ofStore_store w
    rw [hrun] at hstore
    exact ⟨fault, w', hrun, hstore⟩
  rw [ofStore_run]
  by_cases hdefinitions : ∀ d ∈ w.store.allDefinitions, Readable (w.store.get d).pattern
  · obtain ⟨w₁, hrun₁, -⟩ := readAll_run (fun r => (w.store.get r).pattern)
      w.store.allDefinitions hdefinitions w
    have htransforms : ∃ t ∈ w.store.allTransforms, ¬ Readable (w.store.get t).pattern := by
      by_contra hall
      push Not at hall
      exact h ⟨hdefinitions, hall⟩
    obtain ⟨fault, w₂, hrun₂⟩ := readAll_run_error (fun r => (w.store.get r).pattern)
      w.store.allTransforms htransforms w₁
    exact ⟨fault, w₂, by rw [Action.run_bind_ok hrun₁, Action.run_bind_error hrun₂]⟩
  · push Not at hdefinitions
    obtain ⟨fault, w₁, hrun₁⟩ := readAll_run_error (fun r => (w.store.get r).pattern)
      w.store.allDefinitions hdefinitions w
    exact ⟨fault, w₁, Action.run_bind_error hrun₁⟩

end LinkingPass

end StepTrace
