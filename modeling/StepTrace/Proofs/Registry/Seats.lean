import StepTrace.Proofs.Build.Features
import StepTrace.Proofs.Twins.Build

/-!
# Where the feature of a document is placed

Building a document changes one namespace, in which it places its feature, and nothing else that
tells where features lie (`document_seats`).  This holds however the build ends: the feature is
placed at once, and what is built of it afterwards moves nothing (`Unmoved`).
-/

namespace StepTrace

namespace Store

/-- As far as namespaces and the places of features go nothing has changed or come in. -/
structure Unmoved (s s' : Store) : Prop where
  has : ∀ {e}, s.Has e → s'.Has e
  seat : ∀ {e}, s.Has e → (s'.content e).seat? = (s.content e).seat?
  new : ∀ {e}, ¬ s.Has e → s'.Has e → (s'.content e).seat? = none

namespace Unmoved

variable {s s' s'' : Store}

theorem refl (s : Store) : Unmoved s s :=
  ⟨id, fun _ => rfl, fun hnew he => absurd he hnew⟩

theorem trans (h : Unmoved s s') (h' : Unmoved s' s'') : Unmoved s s'' where
  has he := h'.has (h.has he)
  seat he := (h'.seat (h.has he)).trans (h.seat he)
  new {e} hnew he := by
    by_cases hmid : s'.Has e
    · rw [h'.seat hmid, h.new hnew hmid]
    · exact h'.new hmid he

variable {α : Type} [Record α] [HeapRecord α]

theorem add (s : Store) {x : α} (hx : (HeapRecord.wrap x).seat? = none) :
    Unmoved s (s.add x).1 where
  has he := (has_add_iff s x _).mpr (.inl he)
  seat he := by rw [content_add_of_has x he]
  new {e} hnew he := by
    obtain rfl : e = Record.entry (s.add x).2 := ((has_add_iff s x e).mp he).resolve_left hnew
    rw [content_add_self, hx]

omit [HeapRecord α] in
theorem enter (s : Store) (r : Ref α) : Unmoved s (s.enter r) where
  has := (has_enter s r _).mpr
  seat _ := by rw [content_enter]
  new hnew he := absurd ((has_enter s r _).mp he) hnew

theorem register (s : Store) {x : α} (hx : (HeapRecord.wrap x).seat? = none) :
    Unmoved s (s.register x).1 :=
  (add s hx).trans (enter _ _)

theorem modify (s : Store) (r : Ref α) {f : α → α}
    (hf : ∀ x, (HeapRecord.wrap (f x)).seat? = (HeapRecord.wrap x).seat?) :
    Unmoved s (s.modify r f) where
  has := (has_modify s r f _).mpr
  seat {e} he := by
    by_cases heq : e = Record.entry r
    · subst heq
      rw [content_modify_self s r f he, HeapRecord.content_entry, hf]
    · rw [content_modify_of_ne s r f heq]
  new hnew he := absurd ((has_modify s r f _).mp he) hnew

theorem addSteps (s : Store) (xs : List Step) : Unmoved s (s.addSteps xs).1 := by
  induction xs generalizing s with
  | nil => exact .refl s
  | cons x xs ih => exact (add s (x := x) rfl).trans (ih _)

theorem enterAll (s : Store) (refs : List (Ref Step)) :
    Unmoved s (refs.foldl Store.enter s) := by
  induction refs generalizing s with
  | nil => exact .refl s
  | cons r refs ih => exact (enter s r).trans (ih _)

theorem get_nameSpace (h : Unmoved s s') {n : Ref Namespace} (hn : s.Has (.nameSpace n)) :
    s'.get n = s.get n :=
  Sum.inl.inj (Option.some.inj (h.seat hn))

theorem namespaceId (h : Unmoved s s') {r : Ref Feature} (hr : s.Has (.feature r)) :
    (s'.get r).namespaceId = (s.get r).namespaceId :=
  Sum.inr.inj (Option.some.inj (h.seat hr))

theorem has_feature (h : Unmoved s s') {r : Ref Feature} (hr : s'.Has (.feature r)) :
    s.Has (.feature r) := by
  by_contra hnew
  cases h.new hnew hr

end Unmoved

/-- Of the namespaces only `n` has changed, which lists the file, and the features that have come in
name it. -/
structure Seated (n : Ref Namespace) (file : String) (s s' : Store) : Prop where
  home : s'.get n = { s.get n with featureIds := joinName (s.get n).featureIds file }
  other : ∀ {m}, s.Has (.nameSpace m) → m ≠ n → s'.get m = s.get m
  kept : ∀ {r}, s.Has (.feature r) → (s'.get r).namespaceId = (s.get r).namespaceId
  new : ∀ {r}, ¬ s.Has (.feature r) → s'.Has (.feature r) → (s'.get r).namespaceId = (s.get n).id

theorem Seated.unmoved {s s' s'' : Store} {n : Ref Namespace} {file : String}
    (h : Seated n file s s') (hhas : ∀ {e}, s.Has e → s'.Has e) (hn : s.Has (.nameSpace n))
    (h' : Unmoved s' s'') : Seated n file s s'' where
  home := by rw [h'.get_nameSpace (hhas hn), h.home]
  other hm hne := by rw [h'.get_nameSpace (hhas hm), h.other hm hne]
  kept hr := by rw [h'.namespaceId (hhas hr), h.kept hr]
  new hnew hr := by rw [h'.namespaceId (h'.has_feature hr), h.new hnew (h'.has_feature hr)]

end Store

namespace Build

open Store

variable {named : String → Prop} {s s' s'' : Store} {n : Ref Namespace} {file : String}

/-- **Where nothing may move nothing does.** -/
theorem Change.unmoved (h : Change named False s s') : Unmoved s s' := by
  cases h with
  | register _ x _ hseat => exact .register s (hseat.resolve_left id)
  | tag => exact .register s rfl
  | modify _ r _ hseat => exact .modify s r (hseat.resolve_left id)
  | @step _ c x _ =>
      refine (Unmoved.register s (x := x) rfl).trans ?_
      cases c with
      | scenario r => exact .modify _ r fun _ => rfl
      | outline r => exact .modify _ r fun _ => rfl
  | @row _ o x xs _ =>
      have hrow : Unmoved (s.addSteps xs).1
          ((s.addSteps xs).1.register { x with steps := (s.addSteps xs).2 }).1 := .register _ rfl
      refine (Unmoved.addSteps s xs).trans (hrow.trans ?_)
      exact (Unmoved.enterAll _ _).trans (.modify _ o fun _ => rfl)

theorem Changes.unmoved (h : Changes named False s s') : Unmoved s s' :=
  h.preserves (fun _ _ hchange hs => hs.trans hchange.unmoved) (.refl s)

/-- The feature comes in and is placed. -/
theorem seated_place (hn : s.Has (.nameSpace n)) {f : Feature}
    (hf : f.namespaceId = (s.get n).id) :
    Seated n file s ((s.register f).1.modify n fun x =>
      { x with featureIds := joinName x.featureIds file }) := by
  set s₁ := (s.register f).1
  set g : Namespace → Namespace := fun x => { x with featureIds := joinName x.featureIds file }
  have hget : ∀ {m}, s.Has (.nameSpace m) → s₁.get m = s.get m := fun hm =>
    get_eq_of_content_eq (content_register_of_has f hm)
  have hfeature (r : Ref Feature) : (s₁.modify n g).get r = s₁.get r :=
    get_eq_of_content_eq (content_modify_of_ne s₁ n g (e := .feature r) nofun)
  refine ⟨?_, fun {m} hm hne => ?_, fun {r} hr => ?_, fun {r} hnew hr => ?_⟩
  · rw [get_modify_self s₁ n g ((has_register_iff s f _).mpr (.inl hn)), hget hn]
  · rw [← hget hm]
    exact get_eq_of_content_eq (content_modify_of_ne s₁ n g fun heq =>
      hne (Entry.nameSpace.inj heq))
  · have hold : s₁.get r = s.get r := get_eq_of_content_eq (content_register_of_has f hr)
    rw [hfeature, hold]
  · have hself := ((has_register_iff s f _).mp ((has_modify s₁ n g _).mp hr)).resolve_left hnew
    obtain rfl : r = (s.register f).2 := Entry.feature.inj hself
    rw [hfeature, get_register_self, hf]

/-- However the build goes on, the feature stays where it has been placed. -/
theorem fillFeature_seats (hn : s.Has (.nameSpace n)) {f : Feature} {excluded : List String}
    {node nodes : Value} (hid : f.id = file) (hf : f.namespaceId = (s.get n).id)
    (htags : node.field "tags" = .ok nodes)
    (hnodes : NodesAllowed (· ∉ excluded) (nodes.orElse (.list []))) :
    Ensures (fillFeature ⟨file, excluded, .nameSpace n⟩ node (s.register f).2) (s.register f).1
      (Seated n file s) fun _ _ => True := by
  have hn₁ : (s.register f).1.Has (.nameSpace n) := (has_register_iff s f _).mpr (.inl hn)
  have hplace : (place ⟨file, excluded, .nameSpace n⟩ (s.register f).2).run (s.register f).1 = _ :=
    place_run hn₁ (s.register f).2
  rw [get_register_self, hid] at hplace
  have hrest : Makes (Unexcluded ⟨file, excluded, .nameSpace n⟩) False _ :=
    fillPlaced_changes (s.register f).2 htags hnodes
  refine ⟨?_, fun _ _ => trivial⟩
  unfold fillFeature
  rw [Action.run_bind_ok hplace]
  refine (seated_place hn hf).unmoved (fun he => ?_) hn (hrest _).unmoved
  exact (has_modify _ n _ _).mpr ((has_register_iff s f _).mpr (.inl he))

/-- **A document is placed in its namespace before anything else is built of it**, so that nothing
is, or it is seated there. -/
theorem document_seats (hn : s.Has (.nameSpace n)) (excluded : List String) (content : Value) :
    Ensures (document ⟨file, excluded, .nameSpace n⟩ content) s
      (fun s' => s' = s ∨ Seated n file s s') fun _ _ => True := by
  refine ensures_document (Or.inl rfl) trivial fun node f _ hexcluded hf => ?_
  -- the tags could be read, or it would not be known that none is excluded
  obtain ⟨nodes, htags⟩ : ∃ nodes, node.field "tags" = .ok nodes := by
    cases htags : node.field "tags" with
    | ok nodes => exact ⟨nodes, rfl⟩
    | error fault =>
        rw [htags] at hexcluded
        cases hexcluded
  rw [htags] at hexcluded
  have hnodes := nodesAllowed_of_declaresExcluded hexcluded
  exact Ensures.weaken (fillFeature_seats hn hf.id hf.namespaceId htags hnodes) (fun _ => Or.inr)
    fun _ _ _ => id

end Build

end StepTrace
