import StepTrace.Proofs.Build.Changes
import StepTrace.Proofs.Twins.Follows

/-!
# The build of a document goes the same way on twins

All that a builder does depends on the document, on what it reads from the records that it was given,
and on whether two references are the same.  On twins all of this agrees, so every builder follows
itself, on whatever lawful terms the twins are compared (`document_follows`).

The one thing that is left to the terms is finding the tag of a token: it asks the catalog.
-/

namespace StepTrace

open Store HeapRecord

/-! ## Reading records that are alike -/

/-- The location of a record, if its type has one. -/
def Content.location? : Content → Option Location
  | feature x => some x.location
  | scenario x => some x.location
  | outline x => some x.location
  | examples x => some x.location
  | step x => some x.location
  | _ => none

theorem Store.locationOf?_eq (s : Store) (e : Entry) : s.locationOf? e = (s.content e).location? := by
  cases e <;> rfl

/-- What can declare tags is part of a document. -/
theorem Store.isPart_of_tagsOf? {s : Store} {e : Entry} {tags : List (Ref Tag)}
    (h : s.tagsOf? e = some tags) (s' : Store) : (s'.content e).IsPart := by
  cases e with
  | feature | scenario | outline | examples => trivial
  | nameSpace | step | tag | definition | transform => cases h

section

variable {τ : Terms} {ρ : Pairing} {c c' : Content}

theorem Content.Alike.location? (h : c.Alike τ ρ c') : c.location? = c'.location? := by
  cases h with
  | feature _ h => exact congrArg some (congrArg Feature.location h.bare :)
  | scenario _ h => exact congrArg some (congrArg Scenario.location h.bare :)
  | outline _ h => exact congrArg some (congrArg Outline.location h.bare :)
  | examples _ h => exact congrArg some (congrArg Examples.location h.bare :)
  | step _ h => exact congrArg some (congrArg Step.location h.bare :)
  | nameSpace | tag | definition | transform => rfl

theorem Content.Alike.tags? (h : c.Alike τ ρ c') : Option.Rel ρ.Refs c.tags? c'.tags? := by
  cases h with
  | feature _ h | scenario _ h | outline _ h | examples _ h => exact .some h.tags
  | nameSpace | step | tag | definition | transform => exact .none

theorem Content.Alike.stepList (h : c.Alike τ ρ c') : ρ.Refs c.stepList c'.stepList := by
  cases h with
  | scenario _ h | outline _ h => exact h.steps
  | nameSpace | feature | examples | step | tag | definition | transform => exact .nil

theorem Step.Unlinked.alike {x : Step} (h : x.Unlinked) : x.Alike ρ x := by
  refine ⟨rfl, ?_, ?_⟩
  · rw [h.1]
    exact .nil
  · rw [h.2]
    exact .nil

/-! ## Rows of outlines that are alike -/

theorem Outline.copySteps_bare (owner : String) (headers cells : List Value) (position : Nat)
    (templates : List Step) : copySteps owner headers cells position (templates.map Step.bare) =
      copySteps owner headers cells position templates := by
  induction templates generalizing position with
  | nil => rfl
  | cons template templates ih =>
      simp only [List.map_cons, copySteps, ih]
      rfl

/-- Outlines that are alike explode into the same rows. -/
theorem Outline.Alike.explodeRow {o o' : Outline} (h : o.Alike ρ o') {templates templates' : List Step}
    (htemplates : templates.map Step.bare = templates'.map Step.bare) (headers cells : List Value) :
    o.explodeRow templates headers cells = o'.explodeRow templates' headers cells := by
  have hlength := h.scenarios.length_eq
  have hbare := h.bare
  obtain ⟨id, keyword, title, location, description, comments, _, _, _, rows, featureId⟩ := o
  obtain ⟨id', keyword', title', location', description', comments', _, _, _, rows', featureId'⟩ := o'
  cases hbare
  dsimp only at hlength
  simp only [Outline.explodeRow, hlength]
  rw [← copySteps_bare _ _ _ _ templates, htemplates, copySteps_bare]

theorem Outline.explodeRow_tags {o : Outline} {templates : List Step} {headers cells : List Value}
    {x : Scenario} {steps : List Step}
    (h : o.explodeRow templates headers cells = .ok (x, steps)) : x.tags = [] := by
  simp only [Outline.explodeRow, bind, Except.bind] at h
  split at h
  · cases h
  · cases h
    rfl

end

namespace Twins

variable {τ : Terms} {ρ : Pairing} {s t : Store}

/-- Partners are records of the same type. -/
theorem templates (h : Twins τ ρ s t) {rs rs' : List (Ref Step)} (hrs : ρ.Refs rs rs') :
    (rs.map fun r => s.get r).map Step.bare = (rs'.map fun r => t.get r).map Step.bare := by
  induction hrs with
  | nil => rfl
  | cons hr _ ih =>
      have halike := h.alike hr
      cases halike with
      | step _ hx => simp only [List.map_cons, hx.bare, ih]

theorem tagsOf? (h : Twins τ ρ s t) {e e' : Entry} (he : ρ e e') :
    Option.Rel (fun tags tags' => ρ.Refs tags tags' ∧ ∀ s : Store, (s.content e).IsPart)
      (s.tagsOf? e) (t.tagsOf? e') := by
  have htags := (h.content he).tags?
  rw [← Store.tagsOf?_eq, ← Store.tagsOf?_eq] at htags
  generalize hfound : s.tagsOf? e = found at htags
  generalize t.tagsOf? e' = found' at htags
  cases htags with
  | some htags => exact .some ⟨htags, Store.isPart_of_tagsOf? hfound⟩
  | none => exact .none

variable (hτ : τ.Lawful) {tag tag' : Ref Tag} {e e' : Entry}
include hτ

theorem modifyTags (h : Twins τ ρ s t) (he : ρ e e') {f g : List (Ref Tag) → List (Ref Tag)}
    (hfg : ∀ xs ys, ρ.Refs xs ys → ρ.Refs (f xs) (g ys)) :
    Twins τ ρ (s.modifyTags e f) (t.modifyTags e' g) := by
  have hkind := h.kind_eq he
  cases e <;> cases e' <;> first | cases hkind; done | skip
  case feature.feature =>
    refine h.modify hτ he fun | .feature hid hx => .feature hid ?_
    exact ⟨hx.bare, hfg _ _ hx.tags, hx.scenarios, hx.background⟩
  case scenario.scenario =>
    refine h.modify hτ he fun | .scenario hid hx => .scenario hid ?_
    exact ⟨hx.bare, hx.steps, hfg _ _ hx.tags⟩
  case outline.outline =>
    refine h.modify hτ he fun | .outline hid hx => .outline hid ?_
    exact ⟨hx.bare, hx.steps, hfg _ _ hx.tags, hx.examples, hx.scenarios⟩
  case examples.examples =>
    refine h.modify hτ he fun | .examples hid hx => .examples hid ?_
    exact ⟨hx.bare, hfg _ _ hx.tags⟩
  all_goals exact h

omit hτ in
/-- An owner is given by a change of the tag. -/
theorem giveOwner_eq (htag : s.Has (.tag tag)) (id : String) : s.giveOwner tag id =
    s.modify tag fun t => { t with owners := joinName t.owners id } := by
  unfold Store.giveOwner joinName
  split
  · rename_i hmem
    exact (modify_eq_self htag (by simp [hmem])).symm
  · rename_i hmem
    refine modify_congr ?_
    simp [hmem]

/-- A record and a tag learn of each other. -/
theorem attach (h : Twins τ ρ s t) (htag : ρ (.tag tag) (.tag tag')) (he : ρ e e')
    (hpart : ∀ s : Store, (s.content e).IsPart) {tags tags' : List (Ref Tag)}
    (htags : ρ.Refs tags tags') : Twins τ ρ (s.attach tag e tags) (t.attach tag' e' tags') := by
  have hgiven : Twins τ ρ (s.giveTag tag e tags) (t.giveTag tag' e' tags') := by
    unfold Store.giveTag
    by_cases hmem : tag ∈ tags
    · have hmem' : tag' ∈ tags' := (htags.mem_iff h.biUnique htag).mp hmem
      rwa [if_pos (List.contains_iff_mem.mpr hmem), if_pos (List.contains_iff_mem.mpr hmem')]
    · have hmem' : tag' ∉ tags' := fun hin => hmem ((htags.mem_iff h.biUnique htag).mpr hin)
      rw [if_neg (by simpa using hmem), if_neg (by simpa using hmem')]
      exact h.modifyTags hτ he fun _ _ hxs => hxs.concat htag
  unfold Store.attach
  have hid : τ.part ((s.giveTag tag e tags).idOf e) := by
    rw [Store.idOf_eq]
    exact (hgiven.content he).part hτ (hpart _)
  rw [← hgiven.idOf_eq hτ he]
  generalize (s.giveTag tag e tags).idOf e = id at hid
  have hhas := hgiven.has htag
  rw [giveOwner_eq hhas.1, giveOwner_eq hhas.2]
  exact hgiven.modify hτ htag fun | .tag hx => .tag (hτ.giveOwner hx hid)

end Twins

/-! ## Builders -/

namespace Build

open Follows

variable {τ : Terms} {ρ : Pairing} {α β γ δ : Type} {Q : Pairing → γ → δ → Prop}

/-- What is known of all twins may be used. -/
theorem Follows.of_twins {R : Pairing → α → β → Prop} {x : Build α} {y : Build β}
    (h : ∀ s t, Twins τ ρ s t → Follows τ ρ R x y) : Follows τ ρ R x y :=
  fun s t htwins => h s t htwins s t htwins

/-- A loop over lists that stand for each other. -/
theorem Follows.forM₂ {P : Pairing → α → β → Prop} {xs : List α} {ys : List β}
    {f : α → Build Unit} {g : β → Build Unit}
    (hP : ∀ σ σ' a b, σ ≤ σ' → P σ a b → P σ' a b) (hxs : List.Forall₂ (P ρ) xs ys)
    (h : ∀ σ a b, ρ ≤ σ → P σ a b → Follows τ σ NoResult (f a) (g b)) :
    Follows τ ρ NoResult (xs.forM f) (ys.forM g) := by
  induction xs generalizing ρ ys with
  | nil =>
      cases hxs
      exact .pure trivial
  | cons x xs ih =>
      cases hxs with
      | cons hx hxs =>
          refine .bind (h ρ _ _ (le_refl ρ) hx) fun σ _ _ hle _ => ?_
          exact ih (hxs.imp fun _ _ => hP ρ σ _ _ hle) fun σ' _ _ hle' => h σ' _ _ (hle.trans hle')

/-- The tag of a token is there, or comes in if the token is a text. -/
theorem run_tagOf (s : Store) (token : Value) : (tagOf token).run s =
    match s.catalog.find? (tagId token.display), token with
    | some e, _ => (.ok e, s)
    | none, .text name =>
      (.ok (.tag (s.register (Tag.ofToken name)).2), (s.register (Tag.ofToken name)).1)
    | none, _ => (.error .missingField, s) := by
  unfold tagOf
  rw [Action.run_bind_ok (show (get : Build Store).run s = (.ok s, s) from rfl)]
  cases s.catalog.find? (tagId token.display) with
  | some e => rfl
  | none => cases token <;> rfl

theorem Follows.unlessExcluded {excluded : List String} {node : Value} {x : Build α} {y : Build β}
    {a : α} {b : β} {R : Pairing → α → β → Prop} (hab : R ρ a b) (h : Follows τ ρ R x y) :
    Follows τ ρ R
      (do if ← check (do declaresExcluded excluded (← node.field "tags")) then return a
          x)
      (do if ← check (do declaresExcluded excluded (← node.field "tags")) then return b
          y) := by
  refine .check_bind fun isExcluded _ => ?_
  cases isExcluded with
  | true => exact .pure hab
  | false => exact h

variable (hτ : τ.Complete)
include hτ

section Tags

variable {e e' : Entry}

omit hτ in
theorem siteLine_follows (he : ρ e e') (line : Value) :
    Follows τ ρ (fun _ v v' => v = v') (siteLine (some e) line) (siteLine (some e') line) := by
  unfold siteLine
  split
  · exact .pure rfl
  · refine .get_bind fun s t htwins => ?_
    have hlocation : s.locationOf? e = t.locationOf? e' := by
      rw [Store.locationOf?_eq, Store.locationOf?_eq]
      exact (htwins.content he).location?
    rw [Option.bind_some, Option.bind_some, hlocation]
    refine .some?_bind (P := Eq) ?_ fun _ _ heq => heq ▸ .pure rfl
    cases t.locationOf? e' with
    | some => exact .some rfl
    | none => exact .none

theorem declareTag_follows (he : ρ e e') (file : String) (token line : Value) :
    Follows τ ρ NoResult (declareTag file token (some e) line)
      (declareTag file token (some e') line) := by
  rw [declareTag_eq, declareTag_eq]
  refine .bind (hτ.tagOf ρ token) fun σ found found' hle hfound => .of_twins fun s t htwins => ?_
  have hkind := htwins.kind_eq hfound
  cases found <;> cases found' <;> first | cases hkind; done | skip
  case tag.tag tag tag' =>
    refine .bind (siteLine_follows (hle _ _ he) line) ?_
    rintro σ₁ line _ hle₁ rfl
    have htag : σ₁ (.tag tag) (.tag tag') := hle₁ _ _ hfound
    refine .bind (.change hτ.toLawful htag fun _ _ => fun | .tag hx => .tag (hτ.addSite _ hx)) ?_
    intro σ₂ _ _ hle₂ _
    have he₂ : σ₂ e e' := hle₂ _ _ (hle₁ _ _ (hle _ _ he))
    refine .some?_bind (.some he₂) fun e e' he => .get_bind fun s t htwins => ?_
    refine .some?_bind (htwins.tagsOf? he) fun tags tags' ⟨htags, hpart⟩ => ?_
    refine .bind (.modifies fun s t htwins => ?_) fun _ _ _ _ _ => .pure trivial
    exact htwins.attach hτ.toLawful (hle₂ _ _ htag) he hpart htags
  all_goals exact .throw _

theorem declareAll_follows (he : ρ e e') (file : String) (nodes : Value) :
    Follows τ ρ NoResult (declareAll file nodes (some e)) (declareAll file nodes (some e')) := by
  unfold declareAll declareNode
  refine .check_bind fun elements _ => .forM fun σ hle node => ?_
  refine .check_bind fun location _ => .check_bind fun token _ => .check_bind fun line _ => ?_
  exact .bind (declareTag_follows hτ (hle _ _ he) file token line) fun _ _ _ _ _ => .pure trivial

theorem countScenarios_follows (count : Int) {known known' seen seen' tags tags' : List (Ref Tag)}
    (hknown : ρ.Refs known known') (hseen : ρ.Refs seen seen') (htags : ρ.Refs tags tags') :
    Follows τ ρ NoResult (countScenarios count (some known) seen tags)
      (countScenarios count (some known') seen' tags') := by
  induction tags generalizing ρ seen seen' tags' with
  | nil =>
      cases htags
      exact .pure trivial
  | cons tag tags ih =>
      refine .of_twins fun s t htwins => ?_
      cases htags with
      | @cons _ tag' _ tags' htag htags =>
          have hin := hseen.mem_iff htwins.biUnique htag
          have hof := hknown.mem_iff htwins.biUnique htag
          unfold countScenarios
          by_cases hmem : tag ∈ seen
          · rw [if_pos hmem, if_pos (hin.mp hmem)]
            exact ih hknown hseen htags
          · rw [if_neg hmem, if_neg fun h => hmem (hin.mpr h)]
            change Follows τ ρ NoResult (if tag ∈ known then _ else _)
              (if tag' ∈ known' then _ else _)
            by_cases hmem : tag ∈ known
            · rw [if_pos hmem, if_pos (hof.mp hmem)]
              exact ih hknown hseen htags
            · rw [if_neg hmem, if_neg fun h => hmem (hof.mpr h)]
              refine .bind (.change hτ.toLawful htag fun _ _ halike => ?_) fun σ _ _ hle _ => ?_
              · cases halike with
                | tag hx => exact .tag (hτ.addCount _ hx)
              exact ih (hknown.mono hle) (.cons (hle _ _ htag) (hseen.mono hle))
                (Pairing.Refs.mono htags hle)

end Tags

/-! ### Steps -/

section Steps

omit hτ in
theorem stepList_content (s : Store) (c : Container) :
    (s.content c.entry).stepList = containerSteps s c := by
  cases c <;> rfl

variable {file : String} {excluded : List String} {e e' : Entry} {c c' : Container}

theorem step_follows (hc : ρ c.entry c'.entry) (node : Value) :
    Follows τ ρ NoResult (step ⟨file, excluded, e⟩ c node) (step ⟨file, excluded, e'⟩ c' node) := by
  unfold step
  refine .get_bind fun s t htwins => ?_
  have hid : containerId s c = containerId t c' := by
    rw [containerId_eq, containerId_eq, htwins.idOf_eq hτ.toLawful hc]
  have hpart : τ.part (containerId s c) := by
    rw [containerId_eq, Store.idOf_eq]
    exact (htwins.content hc).part hτ.toLawful (by cases c <;> trivial)
  have hsteps : (containerSteps s c).length = (containerSteps t c').length := by
    rw [← stepList_content, ← stepList_content]
    exact (htwins.content hc).stepList.length_eq
  rw [← hid, ← hsteps]
  refine .check_bind fun x hx => ?_
  obtain ⟨hown, -⟩ := stepOf_ok hx
  rw [part_step] at hown
  refine .bind (.register hτ.toLawful (.step ?_ (stepOf_unlinked hx).alike) trivial) fun σ r r' hle hr => ?_
  · rw [hown]
    exact hτ.part hpart (isLabel_step _)
  · have hkind := htwins.kind_eq hc
    have hc' := hle _ _ hc
    cases c <;> cases c' <;> first | cases hkind; done | skip
    case scenario.scenario =>
      refine .change hτ.toLawful hc' fun _ _ => fun | .scenario hid hx => .scenario hid ?_
      exact ⟨hx.bare, hx.steps.concat hr, hx.tags⟩
    case outline.outline =>
      refine .change hτ.toLawful hc' fun _ _ => fun | .outline hid hx => .outline hid ?_
      exact ⟨hx.bare, hx.steps.concat hr, hx.tags, hx.examples, hx.scenarios⟩

theorem steps_follows (hc : ρ c.entry c'.entry) (node : Value) :
    Follows τ ρ NoResult (steps ⟨file, excluded, e⟩ node c) (steps ⟨file, excluded, e'⟩ node c') := by
  unfold steps
  exact .check_bind fun nodes _ => .forM fun σ hle node => step_follows hτ (hle _ _ hc) node

end Steps

/-! ### Outlines -/

section Outlines

variable {file : String} {excluded : List String} {e e' : Entry} {o o' : Ref Outline}

theorem addSteps_follows {xs : List Step} (h : ∀ x ∈ xs, τ.part x.id ∧ x.Unlinked) :
    Follows τ ρ Pairing.Refs (xs.mapM fun x => add x) (xs.mapM fun x => add x) := by
  induction xs generalizing ρ with
  | nil => exact .pure .nil
  | cons x xs ih =>
      obtain ⟨⟨hid, hunlinked⟩, hrest⟩ := List.forall_mem_cons.mp h
      rw [List.mapM_cons]
      refine .bind (.add hτ.toLawful (.step hid hunlinked.alike) trivial) fun σ r r' _ hr => ?_
      refine .bind (ih hrest) fun σ' rs rs' hle hrs => .pure ?_
      exact .cons (hle _ _ hr) hrs

theorem row_follows (ho : ρ (.outline o) (.outline o')) (headers cells : List Value) :
    Follows τ ρ NoResult (row o headers cells) (row o' headers cells) := by
  unfold row
  refine .get_bind fun s t htwins => ?_
  have halike : (Content.outline (s.get o)).Alike τ ρ (.outline (t.get o')) := htwins.content ho
  cases halike with
  | outline hid hx =>
      dsimp only
      rw [hx.explodeRow (htwins.templates hx.steps) headers cells]
      refine .check_bind fun (x, xs) hrow => ?_
      obtain ⟨hx', -, -, hsteps⟩ := Outline.explodeRow_ok hrow
      have hown : τ.part x.id := by
        rw [hx', ← show (s.get o).id = (t.get o').id from (congrArg Outline.id hx.bare :)]
        exact hτ.part hid (isLabel_row _)
      have hxs : ∀ y ∈ xs, τ.part y.id ∧ y.Unlinked := by
        intro y hy
        obtain ⟨i, hi, -⟩ := hsteps.exists_of_mem hy
        rw [hi]
        exact ⟨hτ.part hown (isLabel_step _), explodeRow_unlinked hrow y hy⟩
      refine .bind (addSteps_follows hτ hxs) fun σ₁ rs rs' hle₁ hrs => ?_
      refine .bind (.register hτ.toLawful (.scenario hown ⟨rfl, hrs, ?_⟩) trivial) fun σ₂ r r' hle₂ hr => ?_
      · rw [Outline.explodeRow_tags hrow]
        exact .nil
      refine .bind (.forM₂ (P := SameRef) ?_ (hrs.mono hle₂) ?_) fun σ₃ _ _ hle₃ _ => ?_
      · exact fun _ _ _ _ hle => hle _ _
      · intro σ y y' hle hy
        have hpart (s : Store) : (Content.step (s.get y)).IsPart := trivial
        exact .modifies fun s t htwins => htwins.enter hτ.toLawful hy (hpart s)
      · refine .change hτ.toLawful (hle₃ _ _ (hle₂ _ _ (hle₁ _ _ ho))) fun _ _ => fun
          | .outline hid hx => .outline hid ?_
        exact ⟨hx.bare, hx.steps, hx.tags, hx.examples, hx.scenarios.concat (hle₃ _ _ hr)⟩

theorem fillTable_follows (ho : ρ (.outline o) (.outline o')) {r r' : Ref Examples}
    (hr : ρ (.examples r) (.examples r')) (node header : Value) (headers : List Value) :
    Follows τ ρ NoResult (fillTable o r node header headers)
      (fillTable o' r' node header headers) := by
  unfold fillTable
  refine .bind (.change hτ.toLawful hr fun _ _ => fun
    | .examples hid hx => .examples hid ⟨?_, hx.tags⟩) fun σ₁ _ _ hle₁ _ => ?_
  · exact congrArg (fun e : Examples => { e with
      rows := if header.isPresent then [headers] else [], hasHeader := header.isPresent }) hx.bare
  refine .check_bind fun body _ => ?_
  refine .bind (.change hτ.toLawful (hle₁ _ _ hr) fun _ _ => fun
    | .examples hid hx => .examples hid ⟨?_, hx.tags⟩) fun σ₂ _ _ hle₂ _ => ?_
  · exact congrArg (fun e : Examples => { e with rows := e.rows ++ body }) hx.bare
  refine .bind (.change hτ.toLawful (hle₂ _ _ (hle₁ _ _ ho)) fun _ _ => fun
    | .outline hid hx => .outline hid ?_) fun σ₃ _ _ hle₃ _ => ?_
  · exact ⟨hx.bare, hx.steps, hx.tags, hx.examples.concat (hle₂ _ _ (hle₁ _ _ hr)), hx.scenarios⟩
  exact .forM fun σ hle cells =>
    row_follows hτ (hle _ _ (hle₃ _ _ (hle₂ _ _ (hle₁ _ _ ho)))) headers cells

theorem examples_follows (ho : ρ (.outline o) (.outline o')) (node : Value) :
    Follows τ ρ NoResult (examples ⟨file, excluded, e⟩ o node)
      (examples ⟨file, excluded, e'⟩ o' node) := by
  rw [examples_eq, examples_eq]
  refine .unlessExcluded trivial (.read_bind ho fun x y halike => ?_)
  cases halike with
  | outline hid hx =>
      have hsame : x.id = y.id := (congrArg Outline.id hx.bare :)
      dsimp only
      rw [hsame, hx.examples.length_eq]
      refine .check_bind fun given _ => .check_bind fun keyword _ => ?_
      refine .check_bind fun location _ => .check_bind fun description _ => ?_
      refine .bind (.register hτ.toLawful (.examples ?_ ⟨rfl, .nil⟩) trivial) fun σ₁ r r' hle₁ hr => ?_
      · exact hτ.part (hsame ▸ hid) (isLabel_examples _)
      refine .check_bind fun nodes _ => ?_
      refine .bind (declareAll_follows hτ hr file nodes) fun σ₂ _ _ hle₂ _ => ?_
      refine .check_bind fun header _ => .check_bind fun headers _ => ?_
      exact fillTable_follows hτ (hle₂ _ _ (hle₁ _ _ ho)) (hle₂ _ _ hr) node header headers

end Outlines

/-! ### Containers -/

section Containers

variable {file : String} {excluded : List String} {e e' : Entry} {r r' : Ref Feature}

theorem background_follows (hr : ρ (.feature r) (.feature r')) (node : Value) :
    Follows τ ρ NoResult (background ⟨file, excluded, e⟩ (some r) node)
      (background ⟨file, excluded, e'⟩ (some r') node) := by
  unfold background requireFeature
  refine .some?_bind (.some hr) fun r r' hr => .read_bind hr fun x y halike => ?_
  cases halike with
  | feature hid hx =>
      have hsame : x.id = y.id := (congrArg Feature.id hx.bare :)
      dsimp only
      rw [hsame]
      refine .check_bind fun keyword _ => .check_bind fun title _ => ?_
      refine .check_bind fun location _ => .check_bind fun description _ => ?_
      refine .bind (.register hτ.toLawful (.scenario ?_ ⟨rfl, .nil, .nil⟩) trivial) fun σ₁ b b' hle₁ hb => ?_
      · rw [part_background]
        exact hτ.part (hsame ▸ hτ.file_part hid) isLabel_background
      refine .bind (.change hτ.toLawful (hle₁ _ _ hr) fun _ _ => fun
        | .feature hid hx => .feature hid ?_) fun σ₂ _ _ hle₂ _ => ?_
      · have hbare := congrArg (fun f : Feature => { f with background := none }) hx.bare
        exact ⟨hbare, hx.tags, hx.scenarios, .cons hb .nil⟩
      exact steps_follows hτ (show σ₂ (Container.scenario b).entry (Container.scenario b').entry from
        hle₂ _ _ hb) node

theorem plainScenario_follows (hr : ρ (.feature r) (.feature r')) (node : Value) :
    Follows τ ρ NoResult (plainScenario ⟨file, excluded, e⟩ r node)
      (plainScenario ⟨file, excluded, e'⟩ r' node) := by
  unfold plainScenario
  refine .read_bind hr fun x y halike => ?_
  cases halike with
  | feature hid hx =>
      have hsame : x.id = y.id := (congrArg Feature.id hx.bare :)
      dsimp only
      rw [hsame, hx.scenarios.length_eq]
      refine .check_bind fun keyword _ => .check_bind fun title _ => ?_
      refine .check_bind fun location _ => .check_bind fun description _ => ?_
      refine .bind (.register hτ.toLawful (.scenario ?_ ⟨rfl, .nil, .nil⟩) trivial) fun σ₁ b b' hle₁ hb => ?_
      · rw [part_scenario]
        exact hτ.part (hsame ▸ hτ.file_part hid) (isLabel_scenario _)
      refine .check_bind fun nodes _ => ?_
      refine .bind (declareAll_follows hτ hb file nodes) fun σ₂ _ _ hle₂ _ => ?_
      have hr₂ := hle₂ _ _ (hle₁ _ _ hr)
      have hb₂ := hle₂ _ _ hb
      refine .bind (.change hτ.toLawful hr₂ fun _ _ => fun
        | .feature hid hx => .feature hid ?_) fun σ₃ _ _ hle₃ _ => ?_
      · exact ⟨hx.bare, hx.tags, List.rel_append hx.scenarios (.cons hb₂ .nil), hx.background⟩
      refine .bind (steps_follows hτ (show σ₃ (Container.scenario b).entry
        (Container.scenario b').entry from hle₃ _ _ hb₂) node) ?_
      intro σ₄ _ _ hle₄ _
      refine .bind (.change hτ.toLawful (hle₄ _ _ (hle₃ _ _ hr₂)) fun _ _ => fun
        | .feature hid hx => .feature hid ?_) fun σ₅ _ _ hle₅ _ => ?_
      · have hbare := congrArg (fun f : Feature => { f with totalScenarios := f.totalScenarios + 1 })
          hx.bare
        exact ⟨hbare, hx.tags, hx.scenarios, hx.background⟩
      have hr₅ := hle₅ _ _ (hle₄ _ _ (hle₃ _ _ hr₂))
      have hb₅ := hle₅ _ _ (hle₄ _ _ (hle₃ _ _ hb₂))
      refine .read_bind hr₅ fun f f' hf => .read_bind hb₅ fun b b' hb => ?_
      cases hf with
      | feature _ hf =>
          cases hb with
          | scenario _ hb => exact countScenarios_follows hτ 1 hf.tags .nil hb.tags

theorem outline_follows (hr : ρ (.feature r) (.feature r')) (node : Value) :
    Follows τ ρ NoResult (outline ⟨file, excluded, e⟩ r node)
      (outline ⟨file, excluded, e'⟩ r' node) := by
  unfold outline
  refine .read_bind hr fun x y halike => ?_
  cases halike with
  | feature hid hx =>
      have hsame : x.id = y.id := (congrArg Feature.id hx.bare :)
      dsimp only
      rw [hsame, hx.scenarios.length_eq]
      refine .check_bind fun keyword _ => .check_bind fun title _ => ?_
      refine .check_bind fun location _ => .check_bind fun description _ => ?_
      refine .bind (.register hτ.toLawful (.outline ?_ ⟨rfl, .nil, .nil, .nil, .nil⟩) trivial) ?_
      · rw [part_scenario]
        exact hτ.part (hsame ▸ hτ.file_part hid) (isLabel_scenario _)
      intro σ₁ o o' hle₁ ho
      refine .check_bind fun nodes _ => ?_
      refine .bind (declareAll_follows hτ ho file nodes) fun σ₂ _ _ hle₂ _ => ?_
      refine .bind (steps_follows hτ (show σ₂ (Container.outline o).entry
        (Container.outline o').entry from hle₂ _ _ ho) node) ?_
      intro σ₃ _ _ hle₃ _
      have ho₃ := hle₃ _ _ (hle₂ _ _ ho)
      refine .check_bind fun tables _ => ?_
      refine .bind (.forM fun σ hle table => examples_follows hτ (hle _ _ ho₃) table) ?_
      intro σ₄ _ _ hle₄ _
      have ho₄ := hle₄ _ _ ho₃
      have hr₄ := hle₄ _ _ (hle₃ _ _ (hle₂ _ _ (hle₁ _ _ hr)))
      refine .read_bind ho₄ fun p q hpq => ?_
      cases hpq with
      | outline _ hpq =>
          rw [show p.scenarios.length = q.scenarios.length from hpq.scenarios.length_eq]
          refine .bind (.change hτ.toLawful hr₄ fun _ _ => fun
            | .feature hid hx => .feature hid ?_) fun σ₅ _ _ hle₅ _ => ?_
          · have hbare := congrArg (fun f : Feature =>
              { f with totalScenarios := f.totalScenarios + q.scenarios.length }) hx.bare
            exact ⟨hbare, hx.tags, List.rel_append hx.scenarios (.cons ho₄ .nil), hx.background⟩
          refine .read_bind (hle₅ _ _ hr₄) fun f f' hf => .read_bind (hle₅ _ _ ho₄) fun p q hpq => ?_
          cases hf with
          | feature _ hf =>
              cases hpq with
              | outline _ hpq => exact countScenarios_follows hτ _ hf.tags .nil hpq.tags

theorem scenario_follows (hr : ρ (.feature r) (.feature r')) (node : Value) :
    Follows τ ρ NoResult (scenario ⟨file, excluded, e⟩ (some r) node)
      (scenario ⟨file, excluded, e'⟩ (some r') node) := by
  unfold scenario requireFeature
  refine .unlessExcluded trivial (.check_bind fun tables _ => ?_)
  split
  · exact .some?_bind (.some hr) fun _ _ hr => outline_follows hτ hr node
  · exact .some?_bind (.some hr) fun _ _ hr => plainScenario_follows hτ hr node

theorem ruleChild_follows (hr : ρ (.feature r) (.feature r')) (node : Value) :
    Follows τ ρ NoResult (ruleChild ⟨file, excluded, e⟩ (some r) node)
      (ruleChild ⟨file, excluded, e'⟩ (some r') node) := by
  unfold ruleChild
  refine .check_bind fun backgroundNode _ => ?_
  split
  · exact background_follows hτ hr backgroundNode
  refine .check_bind fun scenarioNode _ => ?_
  split
  · exact scenario_follows hτ hr scenarioNode
  · exact .pure trivial

theorem child_follows (hr : ρ (.feature r) (.feature r')) (node : Value) :
    Follows τ ρ NoResult (child ⟨file, excluded, e⟩ (some r) node)
      (child ⟨file, excluded, e'⟩ (some r') node) := by
  unfold child
  refine .check_bind fun backgroundNode _ => ?_
  split
  · exact background_follows hτ hr backgroundNode
  refine .check_bind fun scenarioNode _ => ?_
  split
  · exact scenario_follows hτ hr scenarioNode
  refine .check_bind fun ruleNode _ => ?_
  split
  · exact .check_bind fun nodes _ => .forM fun σ hle node => ruleChild_follows hτ (hle _ _ hr) node
  · exact .pure trivial

end Containers

/-! ### Documents -/

section Documents

variable {file : String} {excluded : List String} {e e' : Entry} {r r' : Ref Feature}

omit hτ in
theorem place_run {s : Store} {n : Ref Namespace} (hn : s.Has (.nameSpace n)) (r : Ref Feature) :
    (place ⟨file, excluded, .nameSpace n⟩ r).run s =
      (.ok (), s.modify n fun x => { x with featureIds := joinName x.featureIds (s.get r).id }) := by
  unfold place joinName
  dsimp only
  rw [Action.run_bind_ok (show (read r : Build Feature).run s = (.ok (s.get r), s) from rfl),
    Action.run_bind_ok (show (read n : Build Namespace).run s = (.ok (s.get n), s) from rfl)]
  split
  · rename_i hmem
    refine congrArg (Prod.mk _) (modify_congr ?_)
    simp [hmem]
  · rename_i hmem
    refine congrArg (Prod.mk _) (modify_eq_self hn ?_).symm
    rw [if_pos (not_not.mp hmem)]
    cases s.get n
    rfl

theorem place_follows (he : ρ e e') (hr : ρ (.feature r) (.feature r')) :
    Follows τ ρ NoResult (place ⟨file, excluded, e⟩ r) (place ⟨file, excluded, e'⟩ r') := by
  intro s t htwins
  have hkind := htwins.kind_eq he
  cases e <;> cases e' <;> first | cases hkind; done | skip
  case nameSpace.nameSpace n n' =>
    have hfeature := htwins.content hr
    cases hfeature with
    | feature hid hx =>
        have hsame : (s.get r).id = (t.get r').id := (congrArg Feature.id hx.bare :)
        rw [place_run (htwins.has he).1, place_run (htwins.has he).2, ← hsame]
        refine ⟨?_, nofun⟩
        rintro _ _ ⟨⟩
        refine ⟨_, _, ρ, rfl, le_refl ρ, ?_, trivial⟩
        exact htwins.modify hτ.toLawful he fun | .nameSpace hx => .nameSpace (hτ.listFeature hx hid)
  all_goals exact (Follows.throw _ : Follows τ ρ NoResult _ _) s t htwins

/-- **The build of a document goes the same way on twins**, wherever they keep the namespace of the
file. -/
theorem document_follows (hfile : τ.file file) (he : ρ e e') (content : Value) :
    Follows τ ρ (fun σ a b => Option.Rel (SameRef σ) a b)
      (document ⟨file, excluded, e⟩ content) (document ⟨file, excluded, e'⟩ content) := by
  unfold document
  refine .check_bind fun node _ => ?_
  split
  · exact .pure .none
  refine .unlessExcluded .none (.check_bind fun keyword _ => .check_bind fun title _ => ?_)
  refine .check_bind fun location _ => .check_bind fun text _ => .check_bind fun comments _ => ?_
  refine .get_bind fun s t htwins => ?_
  rw [show s.idOf e = t.idOf e' from htwins.idOf_eq hτ.toLawful he]
  refine .bind (.register hτ.toLawful (.feature hfile ⟨rfl, .nil, .nil, .nil⟩) trivial) ?_
  intro σ₁ r r' hle₁ hr
  refine .bind (place_follows hτ (hle₁ _ _ he) hr) fun σ₂ _ _ hle₂ _ => .check_bind fun nodes _ => ?_
  have hr₂ := hle₂ _ _ hr
  refine .bind (declareAll_follows hτ hr₂ file nodes) fun σ₃ _ _ hle₃ _ => ?_
  refine .check_bind fun items _ => ?_
  refine .bind (.forM fun σ hle item => child_follows hτ (hle _ _ (hle₃ _ _ hr₂)) item) ?_
  intro σ₄ _ _ hle₄ _
  have hr₄ := hle₄ _ _ (hle₃ _ _ hr₂)
  refine .read_bind hr₄ fun x y halike => ?_
  cases halike with
  | feature _ hx =>
      have htotal : x.totalScenarios = y.totalScenarios := (congrArg Feature.totalScenarios hx.bare :)
      rw [htotal]
      refine .bind (.forM₂ (P := SameRef) (fun _ _ _ _ hle => hle _ _) hx.tags fun σ tag tag' _ htag =>
        ?_) fun σ₅ _ _ hle₅ _ => .pure (.some (hle₅ _ _ hr₄))
      exact .change hτ.toLawful htag fun _ _ => fun | .tag h => .tag (hτ.addCount _ h)

end Documents

end Build

end StepTrace
