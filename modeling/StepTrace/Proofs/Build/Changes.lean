import StepTrace.Proofs.Build.Outlines
import Mathlib.Logic.Relation

/-!
# The changes that a build consists of

Whatever a build does, and however it ends, it does by a few kinds of changes, one after the other
(`feature_changes`): records without steps come in or change otherwise than in their steps, a step
comes in at the end of its container, a row comes in with its steps, and a tag comes in for a token
that is not excluded.

So what each of these changes preserves is preserved by every build (`Changes.preserves`).

* **No tag of an excluded name** comes in (`tagOf_changes` is the only place where one could).
* **Templates stay apart**: no step of an outline is a step of a scenario.
* **Namespaces stay as they are**, and features where they are placed, while what a feature consists
  of is built (`fillPlaced_changes` holds whether anything may move or not).
-/

namespace StepTrace

/-- The steps that a record lists. -/
def Content.stepList : Content → List (Ref Step)
  | scenario x => x.steps
  | outline x => x.steps
  | _ => []

/-- What the tag is called, if the record is one. -/
def Content.tagName? : Content → Option String
  | tag t => some t.name
  | _ => none

/-- The record itself, if it is a step. -/
def Content.step? : Content → Option Step
  | step x => some x
  | _ => none

/-- What the record tells of where features lie: a namespace all that it is, a feature the namespace
that it names. -/
def Content.seat? : Content → Option (Namespace ⊕ String)
  | nameSpace n => some (.inl n)
  | feature f => some (.inr f.namespaceId)
  | _ => none

/-- The step is linked to nothing. -/
def Step.Unlinked (x : Step) : Prop :=
  x.definition = none ∧ x.transforms = []

/-- The record is neither a step nor a tag, and lists no steps. -/
structure Content.Empty (c : Content) : Prop where
  steps : c.stepList = []
  tag : c.tagName? = none
  step : c.step? = none

/-- As far as steps and names of tags go the records are the same. -/
structure Content.SameSteps (c c' : Content) : Prop where
  steps : c'.stepList = c.stepList
  tag : c'.tagName? = c.tagName?
  step : c'.step? = c.step?

/-- The tag of a token, as it comes in. -/
def Tag.ofToken (token : String) : Tag where
  id := tagId token
  name := stripSigil token
  value := token

namespace Store

/-- The store with steps that are not registered, and their places. -/
def addSteps (s : Store) : List Step → Store × List (Ref Step)
  | [] => (s, [])
  | x :: xs => (((s.add x).1.addSteps xs).1, (s.add x).2 :: ((s.add x).1.addSteps xs).2)

/-- The store with a row and its steps, which joins its outline. -/
def addRow (s : Store) (outline : Ref Outline) (x : Scenario) (xs : List Step) : Store :=
  let (s, refs) := s.addSteps xs
  let (s, r) := s.register { x with steps := refs }
  (refs.foldl enter s).modify outline fun o => { o with scenarios := o.scenarios ++ [r] }

end Store

namespace Build

open Store

/-- One change; `named` says how new tags may be called, and `moves` whether namespaces and the
places of features may change. -/
inductive Change (named : String → Prop) (moves : Prop) : Store → Store → Prop
  | register {α : Type} [Record α] [HeapRecord α] (s : Store) (x : α)
      (h : (HeapRecord.wrap x).Empty) (hseat : moves ∨ (HeapRecord.wrap x).seat? = none) :
      Change named moves s (s.register x).1
  | tag (s : Store) {token : String} (h : named (stripSigil token)) :
      Change named moves s (s.register (Tag.ofToken token)).1
  | modify {α : Type} [Record α] [HeapRecord α] (s : Store) (r : Ref α) {f : α → α}
      (h : ∀ x, (HeapRecord.wrap x).SameSteps (HeapRecord.wrap (f x)))
      (hseat : moves ∨ ∀ x, (HeapRecord.wrap (f x)).seat? = (HeapRecord.wrap x).seat?) :
      Change named moves s (s.modify r f)
  | step (s : Store) (c : Container) {x : Step} (h : x.Unlinked) :
      Change named moves s (pushStep (s.register x).1 c (s.register x).2)
  | row (s : Store) (outline : Ref Outline) (x : Scenario) {xs : List Step}
      (h : ∀ x ∈ xs, x.Unlinked) : Change named moves s (s.addRow outline x xs)

/-- Changes one after the other. -/
abbrev Changes (named : String → Prop) (moves : Prop) : Store → Store → Prop :=
  Relation.ReflTransGen (Change named moves)

variable {named : String → Prop} {moves : Prop} {α β : Type}

/-- **What every change preserves is preserved by changes one after the other.** -/
theorem Changes.preserves {P : Store → Prop} (hP : ∀ s s', Change named moves s s' → P s → P s')
    {s s' : Store} (h : Changes named moves s s') (hs : P s) : P s' := by
  induction h with
  | refl => exact hs
  | tail _ hchange ih => exact hP _ _ hchange ih

/-- However it ends, the action consists of changes. -/
def Makes (named : String → Prop) (moves : Prop) (x : Build α) : Prop :=
  ∀ s, Changes named moves s (x.run s).2

namespace Makes

theorem pure (a : α) : Makes named moves (Pure.pure a) :=
  fun _ => .refl

theorem throw (fault : Fault) : Makes named moves (MonadExcept.throw fault : Build α) :=
  fun _ => .refl

theorem bind {x : Build α} {f : α → Build β} (hx : Makes named moves x)
    (hf : ∀ a, Makes named moves (f a)) : Makes named moves (x >>= f) := by
  intro s
  have hs := hx s
  rw [Action.run_bind]
  rcases hresult : x.run s with ⟨fault | a, s'⟩
  · rwa [hresult] at hs
  · rw [hresult] at hs
    exact hs.trans (hf a s')

theorem get_bind {f : Store → Build β} (hf : ∀ s, Makes named moves (f s)) :
    Makes named moves (MonadState.get >>= f) :=
  fun s => hf s s

theorem check_bind {result : Except Fault α} {f : α → Build β}
    (hf : ∀ a, result = .ok a → Makes named moves (f a)) :
    Makes named moves (check result >>= f) := by
  cases result with
  | ok a => exact hf a rfl
  | error fault => exact .throw fault

theorem some?_bind {fault : Fault} {found : Option α} {f : α → Build β}
    (hf : ∀ a, Makes named moves (f a)) : Makes named moves (some? fault found >>= f) := by
  cases found with
  | some a => exact hf a
  | none => exact .throw fault

theorem forM {xs : List α} {f : α → Build Unit} (hf : ∀ x ∈ xs, Makes named moves (f x)) :
    Makes named moves (xs.forM f) := by
  induction xs with
  | nil => exact .pure ()
  | cons x xs ih =>
      exact .bind (hf x (List.mem_cons_self ..)) fun _ =>
        ih fun y hy => hf y (List.mem_cons_of_mem _ hy)

section

variable {γ : Type} [Record γ] [HeapRecord γ]

omit [HeapRecord γ] in
theorem read_bind {r : Ref γ} {f : γ → Build β} (hf : ∀ x, Makes named moves (f x)) :
    Makes named moves (read r >>= f) :=
  fun s => hf (s.get r) s

theorem register {x : γ} (h : (HeapRecord.wrap x).Empty)
    (hseat : moves ∨ (HeapRecord.wrap x).seat? = none) : Makes named moves (Build.register x) :=
  fun s => .single (.register s x h hseat)

theorem change {r : Ref γ} {f : γ → γ}
    (h : ∀ x, (HeapRecord.wrap x).SameSteps (HeapRecord.wrap (f x)))
    (hseat : moves ∨ ∀ x, (HeapRecord.wrap (f x)).seat? = (HeapRecord.wrap x).seat?) :
    Makes named moves (Build.change r f) :=
  fun s => .single (.modify s r h hseat)

end

end Makes

/-! ## What a change does to the records -/

/-- The steps that come to the list of an entry if one holder gets some. -/
def gained (holder : Entry) (refs : List (Ref Step)) (e : Entry) : List (Ref Step) :=
  if e = holder then refs else []

theorem gained_nil (holder e : Entry) : gained holder [] e = [] := by
  simp [gained]

/-- One record may have got steps, the lists of the others are as they were; steps stay, tags keep
their names.  New steps are unlinked, and new tags have names that are allowed. -/
structure Effect (named : String → Prop) (holder : Entry) (refs : List (Ref Step))
    (s s' : Store) : Prop where
  has : ∀ {e}, s.Has e → s'.Has e
  kept : ∀ e, s.Has e → (s'.content e).tagName? = (s.content e).tagName? ∧
    (s'.content e).step? = (s.content e).step? ∧
      (s'.content e).stepList = (s.content e).stepList ++ gained holder refs e
  new : ∀ e, ¬ s.Has e → s'.Has e → (∀ name, (s'.content e).tagName? = some name → named name) ∧
    (∀ x, (s'.content e).step? = some x → x.Unlinked) ∧
      (s'.content e).stepList = gained holder refs e

namespace Effect

variable {s s' s'' : Store} {holder other : Entry} {refs : List (Ref Step)}

theorem refl (s : Store) (holder : Entry) : Effect named holder [] s s := by
  refine ⟨id, fun e he => ⟨rfl, rfl, ?_⟩, fun e he he' => absurd he' he⟩
  rw [gained_nil, List.append_nil]

theorem trans_silent (h : Effect named holder refs s s') (hholder : s'.Has holder)
    (h' : Effect named other [] s' s'') : Effect named holder refs s s'' := by
  refine ⟨fun he => h'.has (h.has he), fun e he => ?_, fun e he he'' => ?_⟩
  · obtain ⟨htag, hstep, hsteps⟩ := h.kept e he
    obtain ⟨htag', hstep', hsteps'⟩ := h'.kept e (h.has he)
    rw [gained_nil, List.append_nil] at hsteps'
    exact ⟨htag'.trans htag, hstep'.trans hstep, hsteps'.trans hsteps⟩
  · by_cases he' : s'.Has e
    · obtain ⟨htag, hstep, hsteps⟩ := h.new e he he'
      obtain ⟨htag', hstep', hsteps'⟩ := h'.kept e he'
      rw [gained_nil, List.append_nil] at hsteps'
      exact ⟨htag' ▸ htag, hstep' ▸ hstep, hsteps'.trans hsteps⟩
    · obtain ⟨htag, hstep, hsteps⟩ := h'.new e he' he''
      have hne : e ≠ holder := fun heq => he' (heq ▸ hholder)
      exact ⟨htag, hstep, by rw [hsteps, gained_nil, gained, if_neg hne]⟩

theorem silent_trans (h : Effect named other [] s s') (h' : Effect named holder refs s' s'') :
    Effect named holder refs s s'' := by
  refine ⟨fun he => h'.has (h.has he), fun e he => ?_, fun e he he'' => ?_⟩
  · obtain ⟨htag, hstep, hsteps⟩ := h.kept e he
    obtain ⟨htag', hstep', hsteps'⟩ := h'.kept e (h.has he)
    rw [gained_nil, List.append_nil] at hsteps
    exact ⟨htag'.trans htag, hstep'.trans hstep, hsteps ▸ hsteps'⟩
  · by_cases he' : s'.Has e
    · obtain ⟨htag, hstep, hsteps⟩ := h.new e he he'
      obtain ⟨htag', hstep', hsteps'⟩ := h'.kept e he'
      rw [gained_nil] at hsteps
      rw [hsteps, List.nil_append] at hsteps'
      exact ⟨htag' ▸ htag, hstep' ▸ hstep, hsteps'⟩
    · exact h'.new e he' he''

section

variable {α : Type} [Record α] [HeapRecord α]

theorem add (s : Store) {x : α}
    (htag : ∀ name, (HeapRecord.wrap x).tagName? = some name → named name)
    (hstep : ∀ y, (HeapRecord.wrap x).step? = some y → y.Unlinked) :
    Effect named (Record.entry (s.add x).2) (HeapRecord.wrap x).stepList s (s.add x).1 := by
  refine ⟨fun he => (has_add_iff s x _).mpr (.inl he), fun e he => ?_, fun e he he' => ?_⟩
  · have hne : e ≠ Record.entry (s.add x).2 := by
      rintro rfl
      exact not_has_add_self s x he
    rw [content_add_of_has x he, gained, if_neg hne, List.append_nil]
    exact ⟨rfl, rfl, rfl⟩
  · obtain rfl : e = Record.entry (s.add x).2 := ((has_add_iff s x e).mp he').resolve_left he
    rw [content_add_self, gained, if_pos rfl]
    exact ⟨htag, hstep, rfl⟩

omit [HeapRecord α] in
theorem enter (s : Store) (r : Ref α) (holder : Entry) : Effect named holder [] s (s.enter r) := by
  refine ⟨(has_enter s r _).mpr, fun e he => ?_, fun e he he' =>
    absurd ((has_enter s r e).mp he') he⟩
  rw [content_enter, gained_nil, List.append_nil]
  exact ⟨rfl, rfl, rfl⟩

theorem register (s : Store) {x : α}
    (htag : ∀ name, (HeapRecord.wrap x).tagName? = some name → named name)
    (hstep : ∀ y, (HeapRecord.wrap x).step? = some y → y.Unlinked) :
    Effect named (Record.entry (s.register x).2) (HeapRecord.wrap x).stepList s
      (s.register x).1 :=
  (Effect.add s htag hstep).trans_silent (has_add_self s x) (.enter _ _ (Record.entry (s.add x).2))

theorem modify (s : Store) (r : Ref α) {f : α → α} {refs : List (Ref Step)}
    (htag : ∀ x, (HeapRecord.wrap (f x)).tagName? = (HeapRecord.wrap x).tagName?)
    (hstep : ∀ x, (HeapRecord.wrap (f x)).step? = (HeapRecord.wrap x).step?)
    (hsteps : ∀ x, (HeapRecord.wrap (f x)).stepList = (HeapRecord.wrap x).stepList ++ refs) :
    Effect named (Record.entry r) refs s (s.modify r f) := by
  refine ⟨(has_modify s r f _).mpr, fun e he => ?_,
    fun e he he' => absurd ((has_modify s r f e).mp he') he⟩
  by_cases heq : e = Record.entry r
  · subst heq
    rw [content_modify_self s r f he, HeapRecord.content_entry, gained, if_pos rfl]
    exact ⟨htag _, hstep _, hsteps _⟩
  · rw [content_modify_of_ne s r f heq, gained, if_neg heq, List.append_nil]
    exact ⟨rfl, rfl, rfl⟩

end

theorem pushStep (s : Store) (c : Container) (r : Ref Step) :
    Effect named c.entry [r] s (pushStep s c r) := by
  cases c with
  | scenario x =>
      exact .modify s x (f := fun x => { x with steps := x.steps ++ [r] }) (fun _ => rfl)
        (fun _ => rfl) fun _ => rfl
  | outline x =>
      exact .modify s x (f := fun x => { x with steps := x.steps ++ [r] }) (fun _ => rfl)
        (fun _ => rfl) fun _ => rfl

theorem addSteps (s : Store) {xs : List Step} (h : ∀ x ∈ xs, x.Unlinked) (holder : Entry) :
    Effect named holder [] s (s.addSteps xs).1 := by
  induction xs generalizing s with
  | nil => exact .refl s holder
  | cons x xs ih =>
      have hadd : Effect named (.step (s.add x).2) [] s (s.add x).1 := by
        refine Effect.add s (x := x) nofun ?_
        rintro _ ⟨⟩
        exact h x (List.mem_cons_self ..)
      exact hadd.silent_trans (ih _ fun y hy => h y (List.mem_cons_of_mem _ hy))

theorem enterAll (s : Store) (refs : List (Ref Step)) (holder : Entry) :
    Effect named holder [] s (refs.foldl Store.enter s) := by
  induction refs generalizing s with
  | nil => exact .refl s holder
  | cons r refs ih => exact (Effect.enter s r holder).silent_trans (ih _)

end Effect

/-- The steps of a row are new, and each is another one. -/
theorem addSteps_new (s : Store) (xs : List Step) : (s.addSteps xs).2.Nodup ∧
    ∀ r ∈ (s.addSteps xs).2, ¬ s.Has (.step r) ∧ (s.addSteps xs).1.Has (.step r) := by
  have hkept : ∀ {s : Store} {e} (xs : List Step), s.Has e → (s.addSteps xs).1.Has e := by
    intro s e xs he
    induction xs generalizing s with
    | nil => exact he
    | cons x xs ih => exact ih ((has_add_iff s x e).mpr (.inl he))
  induction xs generalizing s with
  | nil => exact ⟨List.nodup_nil, nofun⟩
  | cons x xs ih =>
      obtain ⟨hnodup, hnew⟩ := ih (s.add x).1
      refine ⟨List.nodup_cons.mpr ⟨fun hmem => (hnew _ hmem).1 (has_add_self s x), hnodup⟩, ?_⟩
      intro r hr
      rcases List.mem_cons.mp hr with rfl | hr
      · exact ⟨not_has_add_self s x, hkept xs (has_add_self s x)⟩
      · exact ⟨fun hhas => (hnew r hr).1 ((has_add_iff s x _).mpr (.inl hhas)), (hnew r hr).2⟩

/-- **What a change does to the records**: the steps that a holder gets are new, and each is another
one. -/
theorem Change.effect {s s' : Store} (h : Change named moves s s') :
    ∃ holder refs, Effect named holder refs s s' ∧ refs.Nodup ∧
      ∀ r ∈ refs, ¬ s.Has (.step r) ∧ s'.Has (.step r) := by
  cases h with
  | register _ x h =>
      have heffect : Effect named (Record.entry (s.register x).2) _ s (s.register x).1 :=
        .register s (by simp [h.tag]) (by simp [h.step])
      rw [h.steps] at heffect
      exact ⟨_, _, heffect, List.nodup_nil, nofun⟩
  | tag _ h =>
      refine ⟨_, _, Effect.register s ?_ ?_, List.nodup_nil, nofun⟩
      all_goals rintro _ ⟨⟩
      exact h
  | modify _ r h =>
      refine ⟨_, [], Effect.modify s r (fun x => (h x).tag) (fun x => (h x).step) fun x => ?_,
        List.nodup_nil, nofun⟩
      rw [(h x).steps, List.append_nil]
  | @step _ c x h =>
      have hregister : Effect named (.step (s.register x).2) [] s (s.register x).1 := by
        refine .register s (x := x) nofun ?_
        rintro _ ⟨⟩
        exact h
      have hpush : Effect named c.entry [(s.register x).2] (s.register x).1 _ :=
        .pushStep (s.register x).1 c (s.register x).2
      refine ⟨c.entry, _, hregister.silent_trans hpush, List.nodup_singleton _, fun r hr => ?_⟩
      rw [List.mem_singleton.mp hr]
      exact ⟨not_has_register_self s x, hpush.has (has_register_self s x)⟩
  | @row _ o x xs h =>
      obtain ⟨hnodup, hnew⟩ := addSteps_new s xs
      set s₁ := (s.addSteps xs).1
      set refs := (s.addSteps xs).2
      set y : Scenario := { x with steps := refs }
      have hregister : Effect named (.scenario (s₁.register y).2) refs s₁ (s₁.register y).1 :=
        .register s₁ (x := y) nofun nofun
      have hholder := has_register_self s₁ y
      have hentries : Effect named (.outline o) [] (s₁.register y).1 _ := .enterAll _ refs _
      have hrow := (hregister.trans_silent hholder hentries).trans_silent (hentries.has hholder)
        (.modify _ o (f := fun o => { o with scenarios := o.scenarios ++ [(s₁.register y).2] })
          (fun _ => rfl) (fun _ => rfl) fun _ => (List.append_nil _).symm)
      refine ⟨_, refs, (Effect.addSteps s h (.outline o)).silent_trans hrow, hnodup, fun r hr => ?_⟩
      exact ⟨(hnew r hr).1, hrow.has (hnew r hr).2⟩

/-- **Tags that came in have names that are allowed.** -/
theorem Changes.named_of_new {s s' : Store} (h : Changes named moves s s') {r : Ref Tag}
    (hnew : ¬ s.Has (.tag r)) (hr : s'.Has (.tag r)) : named (s'.get r).name := by
  refine h.preserves (P := fun s' => s'.Has (.tag r) → named (s'.get r).name) ?_
    (fun hs => absurd hs hnew) hr
  intro s₁ s₂ hchange ih hr₂
  obtain ⟨holder, refs, heffect, -⟩ := hchange.effect
  by_cases hr₁ : s₁.Has (.tag r)
  · have hname := (heffect.kept _ hr₁).1
    rw [show (s₂.get r).name = (s₁.get r).name from Option.some.inj hname]
    exact ih hr₁
  · exact (heffect.new _ hr₁ hr₂).1 _ rfl

/-! ## Namespaces -/

theorem rootNamespace_changes : Makes named True rootNamespace := by
  unfold rootNamespace
  refine .get_bind fun s => ?_
  split
  · exact .pure _
  · exact .bind (.register ⟨rfl, rfl, rfl⟩ (.inl trivial)) fun _ => .pure _

theorem childNamespace_changes (parent : Entry) (name : String) :
    Makes named True (childNamespace parent name) := by
  unfold childNamespace
  split
  · refine .read_bind fun n => ?_
    split
    · exact .pure _
    · refine .bind (.register ⟨rfl, rfl, rfl⟩ (.inl trivial)) fun child => ?_
      exact .bind (.change (fun _ => ⟨rfl, rfl, rfl⟩) (.inl trivial)) fun _ => .pure _
  · exact .throw _

theorem descend_changes (start : Entry) (names : List String) :
    Makes named True (descend start names) := by
  induction names generalizing start with
  | nil => exact .pure _
  | cons name names ih => exact .bind (childNamespace_changes start name) fun child => ih child

theorem describe_changes (e : Entry) (text : String) :
    Makes named True (modify fun s => s.describe e text : Build PUnit) := by
  intro s
  cases e with
  | nameSpace r | feature r | scenario r | outline r | examples r =>
      exact .single (.modify s r (fun _ => ⟨rfl, rfl, rfl⟩) (.inl trivial))
  | step | tag | definition | transform => exact .refl

theorem namespaceOf_changes (file : Path) (readMe : ReadMe) :
    Makes named True (namespaceOf file readMe) := by
  unfold namespaceOf
  refine .bind rootNamespace_changes fun root => .bind (descend_changes _ _) fun e => ?_
  refine .get_bind fun s => .some?_bind fun description => ?_
  split
  · cases readMe with
    | none => exact .pure _
    | some text => exact .check_bind fun _ _ => .bind (describe_changes e _) fun _ => .pure _
  · exact .pure _

/-! ## Tags -/

/-- The tokens that an action declares may be those of new tags. -/
def TokenAllowed (named : String → Prop) (token : Value) : Prop :=
  ∀ name, token = .text name → named (stripSigil name)

theorem tagOf_changes {token : Value} (h : TokenAllowed named token) :
    Makes named moves (tagOf token) := by
  unfold tagOf
  refine .get_bind fun s => ?_
  split
  · exact .pure _
  · cases token with
    | text name => exact .bind (fun s => .single (.tag s (h name rfl))) fun _ => .pure _
    | _ => exact .throw _

theorem giveTag_changes (s : Store) (tag : Ref Tag) (e : Entry) (tags : List (Ref Tag)) :
    Changes named moves s (s.giveTag tag e tags) := by
  unfold Store.giveTag
  split
  · exact .refl
  · cases e with
    | feature r | scenario r | outline r | examples r =>
        exact .single (.modify s r (fun _ => ⟨rfl, rfl, rfl⟩) (.inr fun _ => rfl))
    | nameSpace | step | tag | definition | transform => exact .refl

theorem giveOwner_changes (s : Store) (tag : Ref Tag) (id : String) :
    Changes named moves s (s.giveOwner tag id) := by
  unfold Store.giveOwner
  split
  · exact .refl
  · exact .single (.modify s tag (fun _ => ⟨rfl, rfl, rfl⟩) (.inr fun _ => rfl))

theorem siteLine_changes (owner : Option Entry) (line : Value) :
    Makes named moves (siteLine owner line) := by
  unfold siteLine
  split
  · exact .pure _
  · exact .get_bind fun s => .some?_bind fun _ => .pure _

theorem declareTag_changes {token : Value} (h : TokenAllowed named token) (file : String)
    (owner : Option Entry) (line : Value) :
    Makes named moves (declareTag file token owner line) := by
  rw [declareTag_eq]
  refine .bind (tagOf_changes h) fun entry => ?_
  split
  · rename_i tag
    refine .bind (siteLine_changes owner line) fun line => ?_
    refine .bind (.change (fun _ => ⟨rfl, rfl, rfl⟩) (.inr fun _ => rfl)) fun _ => ?_
    refine .some?_bind fun e => .get_bind fun s => .some?_bind fun tags => .bind ?_ fun _ => .pure _
    exact fun s => (giveTag_changes s tag e tags).trans (giveOwner_changes _ tag _)
  · exact .throw _

/-- A list of tag nodes of which none gives a token that may not be that of a new tag. -/
def NodesAllowed (named : String → Prop) (nodes : Value) : Prop :=
  ∀ tags, nodes.elements = .ok tags → ∀ tag ∈ tags, ∀ name, tag.require "name" = .ok (.text name) →
    named (stripSigil name)

theorem declareAll_changes {nodes : Value} (h : NodesAllowed named (nodes.orElse (.list [])))
    (file : String) (owner : Option Entry) : Makes named moves (declareAll file nodes owner) := by
  unfold declareAll
  refine .check_bind fun tags htags => .forM fun tag htag => ?_
  unfold declareNode
  refine .check_bind fun location _ => .check_bind fun token htoken => .check_bind fun line _ => ?_
  refine .bind (declareTag_changes ?_ file owner line) fun _ => .pure _
  rintro name rfl
  exact h tags htags tag htag name htoken

theorem countScenarios_changes (count : Int) (known : Option (List (Ref Tag)))
    (seen tags : List (Ref Tag)) : Makes named moves (countScenarios count known seen tags) := by
  induction tags generalizing seen with
  | nil => exact .pure ()
  | cons tag tags ih =>
      unfold countScenarios
      split
      · exact ih seen
      · refine .some?_bind fun known => ?_
        split
        · exact ih seen
        · refine .bind (.change (fun _ => ⟨rfl, rfl, rfl⟩) (.inr fun _ => rfl)) fun _ => ?_
          exact ih (tag :: seen)

/-- The names that a list of tag nodes gives are those of its nodes. -/
theorem mem_of_mapM_tagNodeName {tags : List Value} {names : List String}
    (h : tags.mapM tagNodeName = .ok names) {tag : Value} (htag : tag ∈ tags) {name : String}
    (hname : tag.require "name" = .ok (.text name)) : name ∈ names := by
  induction tags generalizing names with
  | nil => cases htag
  | cons first tags ih =>
      simp only [List.mapM_cons, bind, Except.bind] at h
      split at h
      · cases h
      · rename_i firstName hfirst
        split at h
        · cases h
        · rename_i rest hrest
          cases h
          rcases List.mem_cons.mp htag with rfl | htag
          · simp only [tagNodeName, hname, bind, Except.bind] at hfirst
            cases hfirst
            exact List.mem_cons_self ..
          · exact List.mem_cons_of_mem _ (ih hrest htag)

/-- **Nodes that declare nothing excluded give no token with an excluded name.** -/
theorem nodesAllowed_of_declaresExcluded {excluded : List String} {nodes : Value}
    (h : declaresExcluded excluded nodes = .ok false) :
    NodesAllowed (· ∉ excluded) (nodes.orElse (.list [])) := by
  intro tags htags tag htag name hname hmem
  cases hpresent : nodes.isPresent with
  | false =>
      simp only [Value.orElse, hpresent] at htags
      cases htags
      cases htag
  | true =>
      have hsome : excluded.isEmpty = false := by
        cases excluded with
        | nil => cases hmem
        | cons => rfl
      simp only [Value.orElse, hpresent, if_true] at htags
      simp only [declaresExcluded, hpresent, hsome, htags, Bool.not_true, Bool.or_self,
        Bool.false_eq_true, if_false, bind, Except.bind, pure, Except.pure] at h
      split at h
      · cases h
      · rename_i names hnames
        have hfound := mem_of_mapM_tagNodeName hnames htag hname
        have hany : (excluded.any fun name => name ∈ names.map stripSigil) = true := by
          simp only [List.any_eq_true, decide_eq_true_eq]
          exact ⟨_, hmem, List.mem_map_of_mem hfound⟩
        rw [hany] at h
        cases h

/-! ## Steps and rows -/

theorem stepOf_unlinked {node : Value} {id scenarioId file : String} {x : Step}
    (h : stepOf node id scenarioId file = .ok x) : x.Unlinked := by
  simp only [stepOf, bind, Except.bind] at h
  repeat' split at h
  all_goals cases h
  all_goals exact ⟨rfl, rfl⟩

theorem copySteps_unlinked {owner : String} {headers cells : List Value} {position : Nat}
    {templates steps : List Step}
    (h : Outline.copySteps owner headers cells position templates = .ok steps) :
    ∀ x ∈ steps, x.Unlinked := by
  induction templates generalizing position steps with
  | nil =>
      cases h
      exact nofun
  | cons template templates ih =>
      simp only [Outline.copySteps, bind, Except.bind] at h
      split at h
      · cases h
      · rename_i first hfirst
        split at h
        · cases h
        · rename_i rest hrest
          cases h
          intro x hx
          rcases List.mem_cons.mp hx with rfl | hx
          · simp only [Outline.copyStep, bind, Except.bind] at hfirst
            repeat' split at hfirst
            all_goals cases hfirst
            exact ⟨rfl, rfl⟩
          · exact ih hrest x hx

theorem explodeRow_unlinked {o : Outline} {templates : List Step} {headers cells : List Value}
    {x : Scenario} {steps : List Step}
    (h : o.explodeRow templates headers cells = .ok (x, steps)) : ∀ y ∈ steps, y.Unlinked := by
  simp only [Outline.explodeRow, bind, Except.bind] at h
  split at h
  · cases h
  · rename_i copied hcopied
    cases h
    exact copySteps_unlinked hcopied

theorem step_changes (site : Site) (c : Container) (node : Value) :
    Makes named moves (step site c node) := by
  unfold step
  refine .get_bind fun s => .check_bind fun x hx => ?_
  rw [show (register x >>= fun r => addStep c r) = (modify fun s : Store =>
    pushStep (s.register x).1 c (s.register x).2 : Build Unit) by
      simp only [addStep_eq]
      rfl]
  exact fun s => .single (.step s c (stepOf_unlinked hx))

theorem steps_changes (site : Site) (node : Value) (c : Container) :
    Makes named moves (steps site node c) := by
  unfold steps
  exact .check_bind fun _ _ => .forM fun node _ => step_changes site c node

theorem run_addSteps (s : Store) (xs : List Step) :
    (xs.mapM fun x => add x : Build _).run s = (.ok (s.addSteps xs).2, (s.addSteps xs).1) := by
  induction xs generalizing s with
  | nil => rfl
  | cons x xs ih =>
      rw [List.mapM_cons, Action.run_bind_ok (show (add x : Build _).run s = (.ok (s.add x).2, _)
        from rfl), Action.run_bind_ok (ih (s.add x).1)]
      rfl

theorem run_enterSteps (s : Store) (refs : List (Ref Step)) :
    (refs.forM fun r => enter r : Build Unit).run s = (.ok (), refs.foldl Store.enter s) := by
  induction refs generalizing s with
  | nil => rfl
  | cons r refs ih =>
      exact (Action.run_bind_ok (show (enter r : Build Unit).run s = (.ok (), s.enter r) from
        rfl)).trans (ih (s.enter r))

/-- **A row is refused before it has done anything, or comes in with all its steps.** -/
theorem run_row (s : Store) (o : Ref Outline) (headers cells : List Value) :
    (row o headers cells).run s =
      match (s.get o).explodeRow ((s.get o).steps.map fun r => s.get r) headers cells with
      | .error fault => (.error fault, s)
      | .ok (x, xs) => (.ok (), s.addRow o x xs) := by
  unfold row
  rw [Action.run_bind_ok (show (get : Build Store).run s = (.ok s, s) from rfl)]
  dsimp only
  cases hresult : (s.get o).explodeRow ((s.get o).steps.map fun r => s.get r) headers cells with
  | error fault => rfl
  | ok result =>
      obtain ⟨x, xs⟩ := result
      change (xs.mapM (fun x => add x) >>= _ : Build Unit).run s = _
      rw [Action.run_bind_ok (run_addSteps s xs)]
      change (List.forM (s.addSteps xs).2 (fun r => enter r) >>= _ : Build Unit).run _ = _
      rw [Action.run_bind_ok (run_enterSteps _ _)]
      rfl

theorem row_changes (o : Ref Outline) (headers cells : List Value) :
    Makes named moves (row o headers cells) := by
  intro s
  rw [run_row]
  split
  · exact .refl
  · rename_i x xs hrow
    exact .single (.row s o x (explodeRow_unlinked hrow))

/-! ## The parts of a feature -/

/-- How the tags are called that come in with the document of a site. -/
def Unexcluded (site : Site) (name : String) : Prop :=
  name ∉ site.excluded

variable {site : Site}

/-- What is done with a node that declares no excluded tag. -/
theorem Makes.unlessExcluded {node : Value} {a : α} {x : Build α}
    (hx : ∀ nodes, node.field "tags" = .ok nodes →
      NodesAllowed (Unexcluded site) (nodes.orElse (.list [])) → Makes (Unexcluded site) moves x) :
    Makes (Unexcluded site) moves (do
      if ← check (do declaresExcluded site.excluded (← node.field "tags")) then return a
      x) := by
  refine .check_bind fun excluded h => ?_
  cases excluded with
  | true => exact .pure a
  | false =>
      cases htags : node.field "tags" with
      | error fault =>
          rw [htags] at h
          cases h
      | ok nodes =>
          rw [htags] at h
          exact hx nodes htags (nodesAllowed_of_declaresExcluded h)

/-- The tags of a node that declares no excluded tag. -/
theorem Makes.declareAll_bind {node nodes : Value} {file : String} {owner : Option Entry}
    {f : Unit → Build β} (htags : node.field "tags" = .ok nodes)
    (h : NodesAllowed named (nodes.orElse (.list []))) (hf : ∀ a, Makes named moves (f a)) :
    Makes named moves
      (check (node.field "tags") >>= fun nodes => declareAll file nodes owner >>= f) := by
  rw [htags]
  change Makes named moves (declareAll file nodes owner >>= f)
  exact .bind (declareAll_changes h file owner) hf

theorem fillTable_changes (o : Ref Outline) (table : Ref Examples) (node header : Value)
    (headers : List Value) : Makes named moves (fillTable o table node header headers) := by
  unfold fillTable
  refine .bind (.change (fun _ => ⟨rfl, rfl, rfl⟩) (.inr fun _ => rfl)) fun _ => ?_
  refine .check_bind fun body _ => ?_
  refine .bind (.change (fun _ => ⟨rfl, rfl, rfl⟩) (.inr fun _ => rfl)) fun _ => ?_
  refine .bind (.change (fun _ => ⟨rfl, rfl, rfl⟩) (.inr fun _ => rfl)) fun _ => ?_
  exact .forM fun cells _ => row_changes o headers cells

theorem examples_changes (o : Ref Outline) (node : Value) :
    Makes (Unexcluded site) moves (examples site o node) := by
  rw [examples_eq]
  refine .unlessExcluded fun nodes htags hnodes => ?_
  refine .read_bind fun outline => .check_bind fun given _ => .check_bind fun keyword _ => ?_
  refine .check_bind fun location _ => .check_bind fun description _ => ?_
  refine .bind (.register ⟨rfl, rfl, rfl⟩ (.inr rfl)) fun r => ?_
  refine .declareAll_bind htags hnodes fun _ => .check_bind fun header _ => ?_
  exact .check_bind fun headers _ => fillTable_changes o r node header headers

theorem background_changes (feature : Option (Ref Feature)) (node : Value) :
    Makes named moves (background site feature node) := by
  unfold background requireFeature
  refine .some?_bind fun feature => .read_bind fun f => .check_bind fun keyword _ => ?_
  refine .check_bind fun title _ => .check_bind fun location _ => .check_bind fun text _ => ?_
  refine .bind (.register ⟨rfl, rfl, rfl⟩ (.inr rfl)) fun r => ?_
  refine .bind (.change (fun _ => ⟨rfl, rfl, rfl⟩) (.inr fun _ => rfl)) fun _ => ?_
  exact steps_changes site node _

theorem plainScenario_changes (feature : Ref Feature) {node nodes : Value}
    (htags : node.field "tags" = .ok nodes)
    (hnodes : NodesAllowed named (nodes.orElse (.list []))) :
    Makes named moves (plainScenario site feature node) := by
  unfold plainScenario
  refine .read_bind fun f => .check_bind fun keyword _ => .check_bind fun title _ => ?_
  refine .check_bind fun location _ => .check_bind fun description _ => ?_
  refine .bind (.register ⟨rfl, rfl, rfl⟩ (.inr rfl)) fun r => ?_
  refine .declareAll_bind htags hnodes fun _ => ?_
  refine .bind (.change (fun _ => ⟨rfl, rfl, rfl⟩) (.inr fun _ => rfl)) fun _ => ?_
  refine .bind (steps_changes site node _) fun _ => ?_
  refine .bind (.change (fun _ => ⟨rfl, rfl, rfl⟩) (.inr fun _ => rfl)) fun _ => ?_
  exact .read_bind fun f => .read_bind fun x => countScenarios_changes _ _ _ _

theorem outline_changes (feature : Ref Feature) {node nodes : Value}
    (htags : node.field "tags" = .ok nodes)
    (hnodes : NodesAllowed (Unexcluded site) (nodes.orElse (.list []))) :
    Makes (Unexcluded site) moves (outline site feature node) := by
  unfold outline
  refine .read_bind fun f => .check_bind fun keyword _ => .check_bind fun title _ => ?_
  refine .check_bind fun location _ => .check_bind fun description _ => ?_
  refine .bind (.register ⟨rfl, rfl, rfl⟩ (.inr rfl)) fun r => ?_
  refine .declareAll_bind htags hnodes fun _ => .bind (steps_changes site node _) fun _ => ?_
  refine .check_bind fun tables _ => ?_
  refine .bind (.forM fun table _ => examples_changes r table) fun _ => .read_bind fun o => ?_
  refine .bind (.change (fun _ => ⟨rfl, rfl, rfl⟩) (.inr fun _ => rfl)) fun _ => ?_
  exact .read_bind fun f => .read_bind fun x => countScenarios_changes _ _ _ _

theorem scenario_changes (feature : Option (Ref Feature)) (node : Value) :
    Makes (Unexcluded site) moves (scenario site feature node) := by
  unfold scenario requireFeature
  refine .unlessExcluded fun nodes htags hnodes => .check_bind fun tables _ => ?_
  split
  · exact .some?_bind fun feature => outline_changes feature htags hnodes
  · exact .some?_bind fun feature => plainScenario_changes feature htags hnodes

theorem ruleChild_changes (feature : Option (Ref Feature)) (node : Value) :
    Makes (Unexcluded site) moves (ruleChild site feature node) := by
  unfold ruleChild
  refine .check_bind fun backgroundNode _ => ?_
  split
  · exact background_changes feature backgroundNode
  · refine .check_bind fun scenarioNode _ => ?_
    split
    · exact scenario_changes feature scenarioNode
    · exact .pure _

theorem child_changes (feature : Option (Ref Feature)) (node : Value) :
    Makes (Unexcluded site) moves (child site feature node) := by
  unfold child
  refine .check_bind fun backgroundNode _ => ?_
  split
  · exact background_changes feature backgroundNode
  · refine .check_bind fun scenarioNode _ => ?_
    split
    · exact scenario_changes feature scenarioNode
    · refine .check_bind fun rule _ => ?_
      split
      · exact .check_bind fun nodes _ => .forM fun node _ => ruleChild_changes feature node
      · exact .pure _

/-! ## Documents -/

theorem place_changes (feature : Ref Feature) : Makes named True (place site feature) := by
  unfold place
  split
  · refine .read_bind fun f => .read_bind fun n => ?_
    split
    · exact .change (fun _ => ⟨rfl, rfl, rfl⟩) (.inl trivial)
    · exact .pure _
  · exact .throw _

/-- What is built of a document once its feature is placed. -/
theorem fillPlaced_changes (r : Ref Feature) {node nodes : Value}
    (htags : node.field "tags" = .ok nodes)
    (hnodes : NodesAllowed (Unexcluded site) (nodes.orElse (.list []))) :
    Makes (Unexcluded site) moves (fillPlaced site node r) := by
  unfold fillPlaced
  refine .declareAll_bind htags hnodes fun _ => .check_bind fun nodes _ => ?_
  refine .bind (.forM fun node _ => child_changes (some r) node) fun _ => .read_bind fun f => ?_
  refine .bind (.forM fun tag _ => ?_) fun _ => .pure _
  exact .change (fun _ => ⟨rfl, rfl, rfl⟩) (.inr fun _ => rfl)

theorem document_changes (content : Value) :
    Makes (Unexcluded site) True (document site content) := by
  unfold document
  refine .check_bind fun node _ => ?_
  split
  · exact .pure _
  refine .unlessExcluded fun nodes htags hnodes => .check_bind fun keyword _ => ?_
  refine .check_bind fun title _ => .check_bind fun location _ => .check_bind fun text _ => ?_
  refine .check_bind fun comments _ => .get_bind fun s => ?_
  refine .bind (.register ⟨rfl, rfl, rfl⟩ (.inl trivial)) fun r => ?_
  exact .bind (place_changes r) fun _ => fillPlaced_changes r htags hnodes

/-- **A build consists of changes**, whatever it is of and however it ends, and no tag of an
excluded name comes in with them. -/
theorem feature_changes (file : Path) (content : Value) (excluded : List String)
    (readMe : ReadMe) :
    Makes (· ∉ excluded.map stripSigil) True (feature file content excluded readMe) := by
  unfold feature site
  simp only [bind_assoc, pure_bind]
  refine .bind (namespaceOf_changes file readMe) fun e => ?_
  let inner : Site := ⟨file.toString, excluded.map stripSigil, e⟩
  exact show Makes (Unexcluded inner) True (document inner content) from document_changes content

end Build

end StepTrace
