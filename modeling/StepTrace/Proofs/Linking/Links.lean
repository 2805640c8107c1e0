import StepTrace.Proofs.Linking.Search
import Mathlib.Data.List.Induction

/-!
# Linking one step after the other

Steps are linked to what the specification says, whatever was linked before them: a pass that has
linked some steps has changed exactly these, and has told exactly their targets of them
(`LinkedUpTo`).  Linking one more step keeps this (`LinkedUpTo.next`), provided that the targets had
no links at the start (`Ready`).  A step that had links keeps its definition if there is no other for
it, and its transforms in any case (`linkedStep`).
-/

namespace StepTrace

namespace Store

/-- The first definition for a step, with the match. -/
def stepMatch? (s : Store) (x : Ref Step) : Option (Ref Definition × Regex.Match) :=
  s.firstMatch? (s.get x).text.display

/-- The definition that a step is to be linked to. -/
def definitionOf? (s : Store) (x : Ref Step) : Option (Ref Definition) :=
  (s.stepMatch? x).map (·.1)

/-- The transforms that a step is to be linked to. -/
def transformsOf (s : Store) (x : Ref Step) : List (Ref Transform) :=
  match s.stepMatch? x with
  | some (_, m) => s.capturedTransforms m
  | none => []

/-- The identifiers of those of the steps that are to be linked to the definition. -/
def stepsOfDefinition (s : Store) (steps : List (Ref Step)) (d : Ref Definition) : List String :=
  (steps.filter fun x => s.definitionOf? x = some d).map fun x => (s.get x).id

/-- The identifiers of those of the steps that are to be linked to the transform. -/
def stepsOfTransform (s : Store) (steps : List (Ref Step)) (t : Ref Transform) : List String :=
  (steps.filter fun x => t ∈ s.transformsOf x).map fun x => (s.get x).id

/-- The step linked as specified, on top of the links that it has. -/
def linkedStep (s : Store) (x : Ref Step) : Step :=
  { s.get x with
    definition := (s.definitionOf? x).or (s.get x).definition
    transforms := (s.get x).transforms ++
      (s.transformsOf x).filter (· ∉ (s.get x).transforms) }

/-- The steps are different, and no target has a link. -/
structure Ready (s : Store) (steps : List (Ref Step)) : Prop where
  nodup : (steps.map fun x => (s.get x).id).Nodup
  has : ∀ x ∈ steps, s.Has (.step x)
  definition : ∀ d ∈ s.allDefinitions, s.Has (.definition d) ∧ (s.get d).steps = []
  transform : ∀ t ∈ s.allTransforms, s.Has (.transform t) ∧ (s.get t).steps = []

/-- Exactly the given steps have been linked since `s₀`. -/
structure LinkedUpTo (s₀ : Store) (done : List (Ref Step)) (s : Store) : Prop where
  rewired : Rewired s₀ s
  step : ∀ {x}, s₀.Has (.step x) → s.get x = if x ∈ done then s₀.linkedStep x else s₀.get x
  definition : ∀ {d}, s₀.Has (.definition d) → s.get d =
    { s₀.get d with steps := (s₀.get d).steps ++ s₀.stepsOfDefinition done d }
  transform : ∀ {t}, s₀.Has (.transform t) → s.get t =
    { s₀.get t with steps := (s₀.get t).steps ++ s₀.stepsOfTransform done t }

end Store

namespace LinkingPass

open Store

variable {s s' : Store} {x : Ref Step}

/-! ## Adding what is new -/

section Adding

variable {α : Type} [DecidableEq α]

theorem addNew_of_mem {x : α} {xs : List α} (h : x ∈ xs) :
    addNew x xs = xs :=
  if_pos h

theorem addNew_of_not_mem {x : α} {xs : List α} (h : x ∉ xs) :
    addNew x xs = xs ++ [x] :=
  if_neg h

theorem mem_addNew {x y : α} {xs : List α} :
    y ∈ addNew x xs ↔ y = x ∨ y ∈ xs := by
  unfold addNew
  split
  · refine ⟨.inr, ?_⟩
    rintro (rfl | hy)
    · assumption
    · exact hy
  · rw [List.mem_append, List.mem_singleton, or_comm]

theorem nodup_addNew {x : α} {xs : List α} (h : xs.Nodup) :
    (addNew x xs).Nodup := by
  unfold addNew
  split
  · exact h
  · refine List.nodup_append.mpr ⟨h, List.nodup_singleton x, ?_⟩
    rintro y hy _ hz rfl
    exact absurd (List.mem_singleton.mp hz ▸ hy) (by assumption)

/-- What was added once is not added again. -/
theorem addNew_addNew (x : α) (xs : List α) :
    addNew x (addNew x xs) = addNew x xs :=
  addNew_of_mem (mem_addNew.mpr (.inl rfl))

/-- Adding one element after the other keeps the first of each that was not there. -/
theorem foldl_addNew (start xs : List α) :
    xs.foldl (fun added x => addNew x added) start =
      start ++ xs.eraseDups.filter (· ∉ start) := by
  induction xs using List.reverseRecOn with
  | nil => simp
  | append_singleton xs x ih =>
      rw [List.foldl_append, ih, List.eraseDups_append, List.foldl_cons, List.foldl_nil]
      by_cases hmem : x ∈ xs
      · have hin : x ∈ start ++ xs.eraseDups.filter (· ∉ start) := by
          by_cases hstart : x ∈ start
          · exact List.mem_append_left _ hstart
          · simp [hmem, hstart]
        rw [addNew_of_mem hin]
        simp [List.removeAll, hmem]
      · have hlast : List.removeAll [x] xs = [x] := by simp [List.removeAll, hmem]
        rw [hlast, List.filter_append]
        by_cases hstart : x ∈ start
        · rw [addNew_of_mem (List.mem_append_left _ hstart)]
          simp [hstart, List.eraseDups_cons]
        · rw [addNew_of_not_mem (by simp [hmem, hstart])]
          simp [hstart, List.eraseDups_cons]

theorem mem_foldl_addNew {y : α} (start xs : List α) :
    y ∈ xs.foldl (fun added x => addNew x added) start ↔ y ∈ start ∨ y ∈ xs := by
  induction xs generalizing start with
  | nil => simp
  | cons x xs ih => rw [List.foldl_cons, ih, mem_addNew, List.mem_cons, or_comm (a := y = x), or_assoc]

theorem nodup_foldl_addNew {start : List α} (xs : List α)
    (h : start.Nodup) : (xs.foldl (fun added x => addNew x added) start).Nodup := by
  induction xs generalizing start with
  | nil => exact h
  | cons x xs ih => exact ih (nodup_addNew h)

end Adding

/-! ## The operations on one step -/

/-- What linking a step to transforms changes. -/
structure TransformsLinked (x : Ref Step) (transforms : List (Ref Transform)) (s s' : Store) :
    Prop where
  step : s'.get x = { s.get x with
    transforms := transforms.foldl (fun added t => addNew t added) (s.get x).transforms }
  transform : ∀ t ∈ transforms, s'.get t = { s.get t with
    steps := addNew (s.get x).id (s.get t).steps }
  content : ∀ e, e ≠ .step x → (∀ t ∈ transforms, e ≠ .transform t) → s'.content e = s.content e

theorem linkTransform_linked (hx : s.Has (.step x)) {t : Ref Transform}
    (ht : s.Has (.transform t)) : TransformsLinked x [t] s (linkTransform x s t) := by
  set f : Step → Step := fun y => { y with transforms := addNew t y.transforms }
  set g : Transform → Transform := fun y => { y with steps := addNew (s.get x).id y.steps }
  have hid : ((s.modify x f).get x).id = (s.get x).id := by rw [get_modify_self s x f hx]
  have hlink : linkTransform x s t = (s.modify x f).modify t g := by
    unfold linkTransform
    dsimp only
    rw [hid]
  have hstep : ((s.modify x f).modify t g).get x = (s.modify x f).get x :=
    get_eq_of_content_eq (content_modify_of_ne (s.modify x f) t g (e := .step x) nofun)
  have htransform : (s.modify x f).get t = s.get t :=
    get_eq_of_content_eq (content_modify_of_ne s x f (e := .transform t) nofun)
  rw [hlink]
  constructor
  case step =>
    rw [hstep, get_modify_self s x f hx]
    rfl
  case transform =>
    intro t' ht'
    obtain rfl := List.mem_singleton.mp ht'
    rw [get_modify_self _ t' g ((has_modify s x f _).mpr ht), htransform]
  case content =>
    intro e hex het
    rw [content_modify_of_ne _ t g (het t (List.mem_singleton_self t)),
      content_modify_of_ne s x f hex]

theorem foldl_linkTransform_linked (transforms : List (Ref Transform)) (hx : s.Has (.step x))
    (htransforms : ∀ t ∈ transforms, s.Has (.transform t)) :
    TransformsLinked x transforms s (transforms.foldl (linkTransform x) s) := by
  induction transforms generalizing s with
  | nil => exact ⟨rfl, nofun, fun _ _ _ => rfl⟩
  | cons t rest ih =>
      have hfirst := linkTransform_linked hx (htransforms t (List.mem_cons_self ..))
      set s₁ := linkTransform x s t
      have hhas : ∀ e, s₁.Has e ↔ s.Has e := (linkTransform_rewired x s t).has
      have hrest := ih ((hhas _).mpr hx) fun t' ht' =>
        (hhas _).mpr (htransforms t' (List.mem_cons_of_mem _ ht'))
      have hid : (s₁.get x).id = (s.get x).id := by rw [hfirst.step]
      have hhead := hfirst.transform t (List.mem_singleton_self t)
      constructor
      case step =>
        rw [List.foldl_cons, hrest.step, hfirst.step]
        rfl
      case transform =>
        intro t' ht'
        rw [List.foldl_cons]
        by_cases hlater : t' ∈ rest
        · rw [hrest.transform t' hlater, hid]
          by_cases hsame : t' = t
          · -- the transform has learned of the step already
            subst hsame
            rw [hhead]
            exact congrArg (fun steps => { s.get t' with steps }) (addNew_addNew ..)
          · have hother := hfirst.content (.transform t') nofun fun t'' ht'' heq =>
              hsame ((Entry.transform.inj heq).trans (List.mem_singleton.mp ht''))
            rw [Content.transform.inj hother]
        · obtain rfl : t' = t := (List.mem_cons.mp ht').resolve_right hlater
          have hkept := hrest.content (.transform t') nofun fun t'' ht'' heq =>
            hlater (Entry.transform.inj heq ▸ ht'')
          rw [Content.transform.inj hkept, hhead]
      case content =>
        intro e hex het
        rw [List.foldl_cons, hrest.content e hex fun t' ht' => het t' (List.mem_cons_of_mem _ ht')]
        refine hfirst.content e hex fun t' ht' => ?_
        rw [List.mem_singleton.mp ht']
        exact het t (List.mem_cons_self ..)

/-- What linking a step to a definition changes. -/
theorem linkDefinition_linked (hx : s.Has (.step x)) {d : Ref Definition}
    (hd : s.Has (.definition d)) :
    (linkDefinition x s d).get x = { s.get x with definition := some d } ∧
      (linkDefinition x s d).get d = { s.get d with
        steps := addNew (s.get x).id (s.get d).steps } ∧
      ∀ e, e ≠ .step x → e ≠ .definition d → (linkDefinition x s d).content e = s.content e := by
  set f : Step → Step := fun y => { y with definition := some d }
  set g : Definition → Definition := fun y => { y with steps := addNew (s.get x).id y.steps }
  have hid : ((s.modify x f).get x).id = (s.get x).id := by rw [get_modify_self s x f hx]
  have hlink : linkDefinition x s d = (s.modify x f).modify d g := by
    unfold linkDefinition
    dsimp only
    rw [hid]
  have hstep : ((s.modify x f).modify d g).get x = (s.modify x f).get x :=
    get_eq_of_content_eq (content_modify_of_ne (s.modify x f) d g (e := .step x) nofun)
  have hdefinition : (s.modify x f).get d = s.get d :=
    get_eq_of_content_eq (content_modify_of_ne s x f (e := .definition d) nofun)
  rw [hlink]
  refine ⟨?_, ?_, ?_⟩
  · rw [hstep, get_modify_self s x f hx]
  · rw [get_modify_self _ d g ((has_modify s x f _).mpr hd), hdefinition]
  · intro e hex hed
    rw [content_modify_of_ne _ d g hed, content_modify_of_ne s x f hex]

/-! ## One more step -/

/-- The store with one more step linked. -/
def linkNext (s₀ : Store) (x : Ref Step) (s : Store) : Store :=
  match s₀.stepMatch? x with
  | none => s
  | some (d, m) =>
    (transformsOf s₀.patternCache m).foldl (linkTransform x) (linkDefinition x s d)

/-- What linking a step to a definition and to transforms changes. -/
structure StepLinked (x : Ref Step) (d : Ref Definition) (transforms : List (Ref Transform))
    (s s' : Store) : Prop where
  step : s'.get x = { s.get x with
    definition := some d
    transforms := transforms.foldl (fun added t => addNew t added) (s.get x).transforms }
  definition : s'.get d = { s.get d with steps := addNew (s.get x).id (s.get d).steps }
  transform : ∀ t ∈ transforms, s'.get t = { s.get t with
    steps := addNew (s.get x).id (s.get t).steps }
  content : ∀ e, e ≠ .step x → e ≠ .definition d → (∀ t ∈ transforms, e ≠ .transform t) →
    s'.content e = s.content e

theorem stepLinked {d : Ref Definition} {transforms : List (Ref Transform)}
    (hx : s.Has (.step x)) (hd : s.Has (.definition d))
    (htransforms : ∀ t ∈ transforms, s.Has (.transform t)) :
    StepLinked x d transforms s (transforms.foldl (linkTransform x) (linkDefinition x s d)) := by
  obtain ⟨hstep, hdefinition, hcontent⟩ := linkDefinition_linked hx hd
  have hhas := (linkDefinition_rewired x s d).has
  set s₁ := linkDefinition x s d
  have hlinked := foldl_linkTransform_linked transforms ((hhas _).mpr hx) fun t ht =>
    (hhas _).mpr (htransforms t ht)
  constructor
  case step =>
    rw [hlinked.step, hstep]
  case definition =>
    have hkept := hlinked.content (.definition d) nofun fun _ _ => nofun
    rw [Content.definition.inj hkept, hdefinition]
  case transform =>
    intro t ht
    have hkept := hcontent (.transform t) nofun nofun
    rw [hlinked.transform t ht, Content.transform.inj hkept, hstep]
  case content =>
    intro e hex hed het
    rw [hlinked.content e hex het, hcontent e hex hed]

namespace StepLinked

variable {s s' : Store} {d : Ref Definition} {transforms : List (Ref Transform)}
  (h : StepLinked x d transforms s s')
include h

theorem get_other (y : Ref Step) (hne : y ≠ x) : s'.get y = s.get y :=
  Content.step.inj (h.content (.step y) (fun heq => hne (Entry.step.inj heq)) nofun
    fun _ _ => nofun)

theorem get_definition (d' : Ref Definition) : s'.get d' = { s.get d' with
    steps := if d' = d then addNew (s.get x).id (s.get d').steps else (s.get d').steps } := by
  by_cases heq : d' = d
  · rw [if_pos heq, heq, h.definition]
  · have hkept := h.content (.definition d') nofun (fun hentry => heq (Entry.definition.inj hentry))
      fun _ _ => nofun
    rw [if_neg heq, Content.definition.inj hkept]

theorem get_transform (t : Ref Transform) : s'.get t = { s.get t with
    steps := if t ∈ transforms then addNew (s.get x).id (s.get t).steps else (s.get t).steps } := by
  by_cases hin : t ∈ transforms
  · rw [if_pos hin, h.transform t hin]
  · have hkept := h.content (.transform t) nofun nofun fun t' ht' hentry =>
      hin (Entry.transform.inj hentry ▸ ht')
    rw [if_neg hin, Content.transform.inj hkept]

end StepLinked

end LinkingPass

namespace Store

open LinkingPass

variable {s₀ s : Store} {x : Ref Step} {done : List (Ref Step)}

theorem stepsOfDefinition_append (s : Store) (done : List (Ref Step)) (x : Ref Step)
    (d : Ref Definition) : s.stepsOfDefinition (done ++ [x]) d =
      s.stepsOfDefinition done d ++ if s.definitionOf? x = some d then [(s.get x).id] else [] := by
  unfold stepsOfDefinition
  rw [List.filter_append, List.map_append]
  by_cases h : s.definitionOf? x = some d <;> simp [h]

theorem stepsOfTransform_append (s : Store) (done : List (Ref Step)) (x : Ref Step)
    (t : Ref Transform) : s.stepsOfTransform (done ++ [x]) t =
      s.stepsOfTransform done t ++ if t ∈ s.transformsOf x then [(s.get x).id] else [] := by
  unfold stepsOfTransform
  rw [List.filter_append, List.map_append]
  by_cases h : t ∈ s.transformsOf x <;> simp [h]

/-- Steps that have been linked have other identifiers than one that has not. -/
theorem Ready.not_mem {rest : List (Ref Step)} (h : s.Ready (done ++ x :: rest))
    {p : Ref Step → Bool} : (s.get x).id ∉ (done.filter p).map fun y => (s.get y).id := by
  intro hmem
  obtain ⟨y, hy, heq⟩ := List.mem_map.mp hmem
  have hnodup := h.nodup
  rw [List.map_append, List.nodup_append] at hnodup
  exact hnodup.2.2 _ (List.mem_map_of_mem (List.mem_of_mem_filter hy)) _
    (List.mem_map_of_mem (List.mem_cons_self ..)) heq

theorem LinkedUpTo.start (s : Store) : LinkedUpTo s [] s where
  rewired := .refl s
  step _ := rfl
  definition _ := by simp [stepsOfDefinition]
  transform _ := by simp [stepsOfTransform]

/-- A step that matches no definition stays as it is. -/
theorem LinkedUpTo.next_unmatched (h : LinkedUpTo s₀ done s) (hget : s.get x = s₀.get x)
    (hmatch : s₀.stepMatch? x = none) : LinkedUpTo s₀ (done ++ [x]) s := by
  have hnone : s₀.definitionOf? x = none := by rw [definitionOf?, hmatch]; rfl
  have hnil : s₀.transformsOf x = [] := by rw [Store.transformsOf, hmatch]
  constructor
  case rewired => exact h.rewired
  case step =>
    intro y hy
    by_cases heq : y = x
    · subst heq
      rw [if_pos (by simp), hget, linkedStep, hnone, hnil, Option.none_or, List.filter_nil,
        List.append_nil]
    · rw [h.step hy]
      simp [heq]
  case definition =>
    intro d hd
    rw [h.definition hd, stepsOfDefinition_append, hnone, if_neg nofun, List.append_nil]
  case transform =>
    intro t ht
    rw [h.transform ht, stepsOfTransform_append, hnil, if_neg nofun, List.append_nil]

/-- A step that matches a definition is linked to it, and to the transforms of what it has captured. -/
theorem LinkedUpTo.next_matched (h : LinkedUpTo s₀ done s) {rest : List (Ref Step)}
    (hready : s₀.Ready (done ++ x :: rest)) (hget : s.get x = s₀.get x) {d : Ref Definition}
    {m : Regex.Match} (hmatch : s₀.stepMatch? x = some (d, m)) :
    LinkedUpTo s₀ (done ++ [x]) (linkNext s₀ x s) := by
  have hx : s.Has (.step x) :=
    (h.rewired.has _).mpr (hready.has x (List.mem_append_right _ (List.mem_cons_self ..)))
  have hdefinition : s₀.definitionOf? x = some d := by rw [definitionOf?, hmatch]; rfl
  have htransforms : s₀.transformsOf x = (LinkingPass.transformsOf s₀.patternCache m).eraseDups := by
    rw [Store.transformsOf, hmatch, transformsOf_patternCache]
  set transforms := LinkingPass.transformsOf s₀.patternCache m
  have hiff : ∀ {t}, t ∈ s₀.transformsOf x ↔ t ∈ transforms := by
    intro t
    rw [htransforms, List.mem_eraseDups]
  obtain ⟨hd₀, hdfree⟩ := hready.definition d (mem_of_firstMatch? hmatch)
  have ht₀ : ∀ t ∈ transforms, s₀.Has (.transform t) ∧ (s₀.get t).steps = [] := by
    intro t ht
    rw [← hiff, Store.transformsOf, hmatch] at ht
    exact hready.transform t (mem_of_capturedTransforms ht)
  have hlink : linkNext s₀ x s = transforms.foldl (linkTransform x) (linkDefinition x s d) := by
    rw [linkNext, hmatch]
  have hlinked : StepLinked x d transforms s (linkNext s₀ x s) := by
    rw [hlink]
    exact stepLinked hx ((h.rewired.has _).mpr hd₀) fun t ht => (h.rewired.has _).mpr (ht₀ t ht).1
  have hrewired : Rewired s (linkNext s₀ x s) := by
    rw [hlink]
    exact (linkDefinition_rewired x s d).trans (.foldl (linkTransform_rewired x) _ _)
  constructor
  case rewired => exact h.rewired.trans hrewired
  case step =>
    intro y hy
    by_cases heq : y = x
    · subst heq
      rw [if_pos (by simp), hlinked.step, hget, foldl_addNew, linkedStep, hdefinition, htransforms,
        Option.some_or]
    · rw [hlinked.get_other y heq, h.step hy]
      simp [heq]
  case definition =>
    intro d' hd'
    -- the definition had not heard of the step: identifiers do not repeat
    rw [hlinked.get_definition, h.definition hd', hget, stepsOfDefinition_append, hdefinition]
    dsimp only
    by_cases heq : d' = d
    · subst heq
      have hfresh : (s₀.get x).id ∉ (s₀.get d').steps ++ s₀.stepsOfDefinition done d' := by
        rw [hdfree, List.nil_append]
        exact hready.not_mem
      rw [if_pos rfl, if_pos rfl, addNew_of_not_mem hfresh, List.append_assoc]
    · rw [if_neg heq, if_neg fun hsome => heq (Option.some.inj hsome).symm, List.append_nil]
  case transform =>
    intro t ht
    rw [hlinked.get_transform, h.transform ht, hget, stepsOfTransform_append]
    dsimp only
    by_cases hin : t ∈ transforms
    · have hfresh : (s₀.get x).id ∉ (s₀.get t).steps ++ s₀.stepsOfTransform done t := by
        rw [(ht₀ t hin).2, List.nil_append]
        exact hready.not_mem
      rw [if_pos hin, if_pos (hiff.mpr hin), addNew_of_not_mem hfresh, List.append_assoc]
    · rw [if_neg hin, if_neg fun hout => hin (hiff.mp hout), List.append_nil]

/-- **Linking one more step.** -/
theorem LinkedUpTo.next (h : LinkedUpTo s₀ done s) {rest : List (Ref Step)}
    (hready : s₀.Ready (done ++ x :: rest)) : LinkedUpTo s₀ (done ++ [x]) (linkNext s₀ x s) := by
  have hmem : x ∈ done ++ x :: rest := List.mem_append_right _ (List.mem_cons_self ..)
  have hnew : x ∉ done := by
    intro hdone
    refine hready.not_mem (p := fun _ => true) ?_
    rw [List.filter_true]
    exact List.mem_map_of_mem hdone
  have hget : s.get x = s₀.get x := by rw [h.step (hready.has x hmem), if_neg hnew]
  cases hmatch : s₀.stepMatch? x with
  | none =>
      have hsame : linkNext s₀ x s = s := by rw [linkNext, hmatch]
      rw [hsame]
      exact h.next_unmatched hget hmatch
  | some found => exact h.next_matched hready hget hmatch

end Store

end StepTrace
