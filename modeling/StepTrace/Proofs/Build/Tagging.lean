import StepTrace.Assembly.Tagging
import StepTrace.Proofs.Build.Ensures
import StepTrace.Proofs.Store.Growth

/-!
# What declaring and counting tags changes

Declaring tags on a record lets the store grow by tags alone, and of the record itself it changes
nothing but the list of its tags (`Store.Retags`).  Counting changes tags only.
-/

namespace StepTrace

/-- The store with a tag given to a record, whose tags are known. -/
def Store.giveTag (s : Store) (tag : Ref Tag) (e : Entry) (tags : List (Ref Tag)) : Store :=
  if tags.contains tag then s else s.modifyTags e (· ++ [tag])

/-- The store with an owner given to a tag. -/
def Store.giveOwner (s : Store) (tag : Ref Tag) (id : String) : Store :=
  if id ∈ (s.get tag).owners then s
  else s.modify tag fun t => { t with owners := t.owners ++ [id] }

/-- The store after a record and a tag have learnt of each other, where they had not. -/
def Store.attach (s : Store) (tag : Ref Tag) (e : Entry) (tags : List (Ref Tag)) : Store :=
  (s.giveTag tag e tags).giveOwner tag ((s.giveTag tag e tags).idOf e)

/-- The record without its tags. -/
def Content.untagged : Content → Content
  | feature x => .feature { x with tags := [] }
  | scenario x => .scenario { x with tags := [] }
  | outline x => .outline { x with tags := [] }
  | examples x => .examples { x with tags := [] }
  | c => c

namespace Store

/-- The store has grown by tags, and of the record at `e` only the tags may have changed. -/
structure Retags (e : Entry) (s s' : Store) : Prop where
  grows : Grows nowhere (· = e) s s'
  untagged : (s'.content e).untagged = (s.content e).untagged

namespace Retags

variable {e : Entry} {s s' s'' : Store}

theorem refl (e : Entry) (s : Store) : Retags e s s :=
  ⟨.refl s, rfl⟩

theorem trans (h : Retags e s s') (h' : Retags e s' s'') : Retags e s s'' :=
  ⟨h.grows.trans h'.grows (fun _ _ => id) fun _ heq _ => heq, h'.untagged.trans h.untagged⟩

/-- A record that is neither a tag nor a namespace is not changed by the growth of others. -/
theorem of_grows (h : Grows nowhere untouched s s') (he : s.Has e) (htag : e.kind ≠ .tag)
    (hspace : e.kind ≠ .nameSpace) : Retags e s s' :=
  ⟨h.set_aside, by rw [h.content_eq he id htag hspace]⟩

theorem modifyTags (he : s.Has e) (f : List (Ref Tag) → List (Ref Tag)) :
    Retags e s (s.modifyTags e f) := by
  cases e with
  | feature r =>
      refine ⟨Grows.modify_hole (fun _ => rfl) rfl, ?_⟩
      have h := content_modify_self s r (fun x : Feature => { x with tags := f x.tags }) he
      exact (congrArg Content.untagged h :)
  | scenario r =>
      refine ⟨Grows.modify_hole (fun _ => rfl) rfl, ?_⟩
      have h := content_modify_self s r (fun x : Scenario => { x with tags := f x.tags }) he
      exact (congrArg Content.untagged h :)
  | outline r =>
      refine ⟨Grows.modify_hole (fun _ => rfl) rfl, ?_⟩
      have h := content_modify_self s r (fun x : Outline => { x with tags := f x.tags }) he
      exact (congrArg Content.untagged h :)
  | examples r =>
      refine ⟨Grows.modify_hole (fun _ => rfl) rfl, ?_⟩
      have h := content_modify_self s r (fun x : Examples => { x with tags := f x.tags }) he
      exact (congrArg Content.untagged h :)
  | nameSpace | step | tag | definition | transform => exact refl _ s

end Retags

/-! ## Changes of tags -/

variable {region : String → Entry → Prop} {hole : Entry → Prop}

theorem Grows.addSite (s : Store) (r : Ref Tag) (site : TagSite) :
    Grows region hole s (s.modify r fun t => { t with sites := t.sites ++ [site] }) := by
  refine .modify (fun _ => rfl) fun _ => .tag ?_
  simp [Tag.backTo, Tag.mark]

theorem Grows.addOwner (s : Store) (r : Ref Tag) (id : String) :
    Grows region hole s (s.modify r fun t => { t with owners := t.owners ++ [id] }) := by
  refine .modify (fun _ => rfl) fun _ => .tag ?_
  simp [Tag.backTo, Tag.mark]

theorem Grows.addCount (s : Store) (r : Ref Tag) (count : Int) :
    Grows region hole s
      (s.modify r fun t => { t with totalScenarios := t.totalScenarios + count }) := by
  refine .modify (fun _ => rfl) fun _ => .tag ?_
  simp [Tag.backTo, Tag.mark]

theorem Retags.giveTag {e : Entry} {s : Store} (he : s.Has e) (tag : Ref Tag)
    (tags : List (Ref Tag)) : Retags e s (s.giveTag tag e tags) := by
  unfold Store.giveTag
  split
  · exact .refl e s
  · exact .modifyTags he _

theorem Grows.giveOwner (s : Store) (tag : Ref Tag) (id : String) :
    Grows region hole s (s.giveOwner tag id) := by
  unfold Store.giveOwner
  split
  · exact .refl s
  · exact .addOwner s tag id

theorem Retags.attach {e : Entry} {s : Store} (he : s.Has e) (htag : e.kind ≠ .tag)
    (hspace : e.kind ≠ .nameSpace) (tag : Ref Tag) (tags : List (Ref Tag)) :
    Retags e s (s.attach tag e tags) := by
  have hfirst := Retags.giveTag he tag tags
  exact hfirst.trans (.of_grows (Grows.giveOwner _ tag _) (hfirst.grows.has he) htag hspace)

end Store

namespace Build

open Store

/-- The line of a declaration: the given one, or that of the owner. -/
def siteLine (owner : Option Entry) (line : Value) : Build Value :=
  if line.isPresent then pure line
  else do
    let location ← some? .missingField (owner.bind (← get).locationOf?)
    pure (.int location.line)

private theorem run_unless {α : Type} {c c' : Prop} [Decidable c] [Decidable c'] (hc : c ↔ c')
    (f : Store → Store) (rest : PUnit → Build α) (s : Store) :
    (if ¬ c then modify f >>= rest else rest ⟨⟩) s = rest ⟨⟩ (if c' then s else f s) := by
  by_cases h : c
  · rw [if_neg (not_not.mpr h), if_pos (hc.mp h)]
  · rw [if_pos h, if_neg fun h' => h (hc.mpr h')]
    rfl

theorem declareTag_eq (file : String) (token : Value) (owner : Option Entry) (line : Value) :
    declareTag file token owner line = do
      let .tag tag ← tagOf token | throw .missingField
      let line ← siteLine owner line
      change tag fun t => { t with sites := t.sites ++ [⟨file, line⟩] }
      let e ← some? .missingField owner
      let tags ← some? .missingField ((← get).tagsOf? e)
      modify fun s => s.attach tag e tags
      return tag := by
  unfold declareTag siteLine
  refine bind_congr fun entry => ?_
  cases entry with
  | tag tag =>
      dsimp -zeta only
      extract_lets jp jp'
      have hjp' : jp' = fun line => do
          change tag fun t => { t with sites := t.sites ++ [⟨file, line⟩] }
          let e ← some? .missingField owner
          let tags ← some? .missingField ((← get).tagsOf? e)
          modify fun s => s.attach tag e tags
          return tag := by
        funext line
        refine bind_congr fun _ => bind_congr fun e => bind_congr fun s => bind_congr fun tags => ?_
        funext s
        refine (run_unless List.contains_iff_mem.symm
          (fun s => s.modifyTags e (· ++ [tag])) _ s).trans ?_
        let s' := s.giveTag tag e tags
        exact run_unless (c := s'.idOf e ∈ (s'.get tag).owners) Iff.rfl
          (fun s => s.modify tag fun t => { t with owners := t.owners ++ [s'.idOf e] })
          (fun _ => pure tag) s'
      rw [hjp']
      split <;> simp
  | _ => rfl

theorem tagOf_grows (s : Store) (token : Value) :
    Ensures (tagOf token) s (Grows nowhere untouched s) fun _ _ => True := by
  unfold tagOf
  rw [ensures_bind_get]
  split
  · exact .pure (.refl s) trivial
  · rename_i hfree
    split
    · rename_i name
      rw [ensures_bind_register]
      exact .pure (Grows.register_tag s (isTag_tagId name) hfree) trivial
    · exact .throw (.refl s)

theorem siteLine_keeps (s : Store) (owner : Option Entry) (line : Value) :
    Ensures (siteLine owner line) s (· = s) fun _ _ => True := by
  unfold siteLine
  split
  · exact .pure rfl trivial
  · rw [ensures_bind_get]
    exact ensures_bind_some? rfl fun _ _ => .pure rfl trivial

theorem declareTag_retags {s : Store} {e : Entry} (he : s.Has e) (htag : e.kind ≠ .tag)
    (hspace : e.kind ≠ .nameSpace) (file : String) (token line : Value) :
    Ensures (declareTag file token (some e) line) s (Retags e s) fun _ _ => True := by
  have hchange : ∀ {s' s''}, Retags e s s' → Grows nowhere untouched s' s'' → Retags e s s'' :=
    fun h h' => h.trans (.of_grows h' (h.grows.has he) htag hspace)
  rw [declareTag_eq]
  refine .bind ((tagOf_grows s token).weaken (fun _ h => hchange (.refl e s) h) fun _ _ _ => id) ?_
  intro entry s₁ h₁ _
  split
  · rename_i tag
    refine .bind ((siteLine_keeps s₁ _ line).weaken (fun _ h => h ▸ h₁) fun _ _ _ => id) ?_
    intro line s₂ h₂ _
    rw [ensures_bind_change]
    have h₃ := hchange h₂ (Grows.addSite s₂ tag ⟨file, line⟩)
    refine ensures_bind_some? h₃ ?_
    rintro _ ⟨⟩
    rw [ensures_bind_get]
    refine ensures_bind_some? h₃ fun tags _ => ?_
    rw [ensures_bind_modify]
    exact .pure (h₃.trans (.attach (h₃.grows.has he) htag hspace tag tags)) trivial
  · exact .throw h₁

/-- **Declaring tags on a record changes only its tags, and tags.** -/
theorem declareAll_retags {s : Store} {e : Entry} (he : s.Has e) (htag : e.kind ≠ .tag)
    (hspace : e.kind ≠ .nameSpace) (file : String) (nodes : Value) :
    Ensures (declareAll file nodes (some e)) s (Retags e s) fun _ _ => True := by
  unfold declareAll
  refine ensures_bind_check (.refl e s) fun elements _ => ?_
  refine .forM (fun _ _ => True) (.refl e s) trivial ?_
  intro _ node _ s' _ h' _
  unfold declareNode
  refine ensures_bind_check h' fun location _ => ?_
  refine ensures_bind_check h' fun token _ => ?_
  refine ensures_bind_check h' fun line _ => ?_
  refine .bind ((declareTag_retags (h'.grows.has he) htag hspace file token line).weaken
    (fun _ h => h'.trans h) fun _ _ _ => id) ?_
  exact fun _ s'' h'' _ => .pure h'' trivial

/-- **Counting changes tags only.** -/
theorem countScenarios_grows (s : Store) (count : Int) (known : Option (List (Ref Tag)))
    (seen tags : List (Ref Tag)) :
    Ensures (countScenarios count known seen tags) s (Grows nowhere untouched s)
      fun _ _ => True := by
  induction tags generalizing s seen with
  | nil => exact .pure (.refl s) trivial
  | cons tag tags ih =>
      unfold countScenarios
      split
      · exact ih s seen
      · refine ensures_bind_some? (.refl s) fun known _ => ?_
        split
        · exact ih s seen
        · rw [ensures_bind_change]
          exact (ih _ (tag :: seen)).weaken
            (fun _ h => (Grows.addCount s tag count).trans h (fun _ _ => id) fun _ h _ => h)
            fun _ _ _ => id

end Build

end StepTrace
