import StepTrace.Proofs.Build.Steps

/-!
# Rows and examples

What the builders of rows and of examples tables leave behind, whether they come to their end or
not: of the outline only the lists of its examples and its scenarios have grown, and what is in them
is registered under its number (`OutlineBuilt`).  A builder that comes to its end has added one
scenario for each row of the tables (`Exploded`), and all that it has registered is part of the
outline (`Fills`).
-/

namespace StepTrace

/-! ## What a row is made of -/

namespace Outline

theorem copySteps_ok {owner : String} {headers cells : List Value} {position : Nat}
    {templates steps : List Step}
    (h : copySteps owner headers cells position templates = .ok steps) :
    Numbered (fun i x => x.id = part owner (stepLabel (position + i)) ∧ x.scenarioId = owner)
      steps := by
  induction templates generalizing position steps with
  | nil =>
      cases h
      exact .nil
  | cons template templates ih =>
      simp only [copySteps, bind, Except.bind] at h
      split at h
      · cases h
      · rename_i x hx
        split at h
        · cases h
        · rename_i rest hrest
          cases h
          intro i y hy
          cases i with
          | zero =>
              cases hy
              rw [← part_step]
              simp only [copyStep, bind, Except.bind] at hx
              repeat' split at hx
              all_goals cases hx
              exact ⟨rfl, rfl⟩
          | succ i =>
              have hy' := ih hrest i y (by simpa using hy)
              dsimp only at hy' ⊢
              rwa [Nat.add_assoc, Nat.add_comm 1 i] at hy'

/-- The scenario of a row has the next number, names its owners, and has its steps still to come. -/
theorem explodeRow_ok {o : Outline} {templates : List Step} {headers cells : List Value}
    {x : Scenario} {steps : List Step}
    (h : explodeRow o templates headers cells = .ok (x, steps)) :
    x.id = part o.id (rowLabel (o.scenarios.length + 1)) ∧ x.featureId = o.featureId ∧
      x.outlineId = some o.id ∧
      Numbered (fun i y => y.id = part x.id (stepLabel (i + 1)) ∧ y.scenarioId = x.id) steps := by
  simp only [explodeRow, bind, Except.bind] at h
  split at h
  · cases h
  · rename_i copied hcopied
    cases h
    refine ⟨part_row _ _, rfl, rfl, (copySteps_ok hcopied).mono ?_⟩
    intro i y _ hy
    rwa [Nat.add_comm 1 i] at hy

end Outline

namespace Build

open Store

variable {s s' s'' : Store} {r : Ref Outline}

/-! ## Registering the steps of a row -/

theorem addSteps_ensures (s : Store) (xs : List Step) :
    Ensures (xs.mapM fun x => add x) s (Grows nowhere untouched s) fun refs s' =>
      Numbered (fun i r => s'.Has (.step r) ∧ xs[i]? = some (s'.get r)) refs := by
  refine (Ensures.mapM (fun done refs s' => done.length = refs.length ∧
      Numbered (fun i r => s'.Has (.step r) ∧ done[i]? = some (s'.get r)) refs)
    (.refl s) ⟨rfl, .nil⟩ ?_).weaken (fun _ => id) fun _ _ _ h => h.2
  intro done refs x rest s' _ h ⟨hlength, hrefs⟩
  have hadd : Grows nowhere untouched s' (s'.add x).1 := .add s' x
  refine ⟨h.trans hadd (fun _ _ => id) fun _ h _ => h, ?_⟩
  rintro r hr
  have hr : (s'.add x).2 = r := Except.ok.inj hr
  subst hr
  refine ⟨by simp [hlength], Numbered.append ?_ ⟨has_add_self s' x, ?_⟩⟩
  · refine hrefs.mono ?_
    rintro i r - ⟨hhas, hget⟩
    refine ⟨hadd.has hhas, ?_⟩
    have hi : i < done.length := (List.getElem?_eq_some_iff.mp hget).1
    rw [List.getElem?_append_left hi, hget]
    exact congrArg some (hadd.get_step hhas id).symm
  · rw [← hlength, List.getElem?_append_right (Nat.le_refl _), Nat.sub_self]
    exact congrArg some (get_add_self s' x).symm

theorem enterSteps_ensures {owner : String} {refs : List (Ref Step)}
    (hrefs : Numbered (fun i r => s.Has (.step r) ∧
      (s.get r).id = part owner (stepLabel (i + 1)) ∧ (s.get r).scenarioId = owner) refs) :
    Ensures (refs.forM fun r => enter r) s (Grows (PartsBelow owner) untouched s) fun _ s' =>
      s'.StepsPlaced owner refs ∧ Admits (· ∈ refs.map .step) s s' := by
  refine Ensures.forM (I := Grows (PartsBelow owner) untouched s)
    (fun done s' => s'.StepsPlaced owner done ∧ Admits (· ∈ done.map .step) s s')
    (.refl s) ⟨.nil, .refl s⟩ ?_
  intro done r rest s' hsplit h ⟨hplaced, hadmits⟩
  have hr : refs[done.length]? = some r := by simp [hsplit]
  obtain ⟨hhas, hid, howner⟩ := hrefs _ r hr
  have hsame : s'.get r = s.get r := h.get_step hhas id
  have henter : Grows (PartsUnder (part owner (stepLabel (done.length + 1)))) untouched s'
      (s'.enter r) := by
    refine .enter (h.has hhas) ⟨?_, trivial⟩
    rw [hsame, show Record.id (s.get r) = _ from hid]
    exact .refl _
  refine ensures_modify ?_ ⟨Numbered.append ?_ ⟨placed_enter (h.has hhas) ?_, ?_⟩, ?_⟩
  · exact h.trans henter (fun _ _ => PartsBelow.of_part (isLabel_step _)) fun _ h _ => h
  · exact hplaced.grows_part henter (isLabel_step _) (fun _ => stepLabel_ne_next) fun _ => id
  · rw [hsame]
    exact hid
  · rw [henter.get_step (h.has hhas) id, hsame, howner]
  · rw [List.map_append]
    exact (hadmits.mono fun _ => List.mem_append_left _).trans
      (.enter s' (List.mem_append_right _ (List.mem_singleton_self _)))

/-! ## The outline while it grows -/

/-- Of the outline only examples and scenarios have come in, and all are placed. -/
structure OutlineBuilt (r : Ref Outline) (s s' : Store) : Prop where
  grows : Grows (PartsBelow (s.get r).id) (· = .outline r) s s'
  placed : s'.OutlinePlaced (s.get r).featureId r (s.get r).id
  frame : { s'.get r with examples := [], scenarios := [] } =
    { s.get r with examples := [], scenarios := [] }

namespace OutlineBuilt

theorem refl (h : s.OutlinePlaced (s.get r).featureId r (s.get r).id) : OutlineBuilt r s s :=
  ⟨.refl s, h, rfl⟩

theorem id_eq (h : OutlineBuilt r s s') : (s'.get r).id = (s.get r).id :=
  (congrArg Outline.id h.frame :)

theorem featureId_eq (h : OutlineBuilt r s s') : (s'.get r).featureId = (s.get r).featureId :=
  (congrArg Outline.featureId h.frame :)

theorem placed_self (h : OutlineBuilt r s s') :
    s'.OutlinePlaced (s'.get r).featureId r (s'.get r).id := by
  rw [h.id_eq, h.featureId_eq]
  exact h.placed

theorem trans (h : OutlineBuilt r s s') (h' : OutlineBuilt r s' s'') : OutlineBuilt r s s'' := by
  obtain ⟨hgrows, hplaced, hframe⟩ := h'
  rw [h.id_eq] at hgrows hplaced
  rw [h.featureId_eq] at hplaced
  exact ⟨h.grows.trans hgrows (fun _ _ => id) fun _ heq _ => heq, hplaced, hframe.trans h.frame⟩

/-- If nothing has left the lists of the outline, no part of it has. -/
theorem parts_subset (h : OutlineBuilt r s s')
    (hplaced : s.OutlinePlaced (s.get r).featureId r (s.get r).id)
    (hexamples : (s.get r).examples ⊆ (s'.get r).examples)
    (hrows : (s.get r).scenarios ⊆ (s'.get r).scenarios) : s.outlineParts r ⊆ s'.outlineParts r := by
  have hsteps : (s'.get r).steps = (s.get r).steps := (congrArg Outline.steps h.frame :)
  intro e he
  rw [mem_outlineParts, hsteps]
  refine (mem_outlineParts.mp he).imp_right (Or.imp_right (Or.imp ?_ ?_))
  · rintro ⟨t, ht, rfl⟩
    exact ⟨t, hexamples ht, rfl⟩
  · rintro ⟨x, hx, he⟩
    obtain ⟨i, hi⟩ := hplaced.rows.exists_of_mem hx
    rw [← scenarioParts_grows hi.placed.has h.grows nofun] at he
    exact ⟨x, hrows hx, he⟩

end OutlineBuilt

/-- A label that no step, table or row of the outline has. -/
structure Vacant (o : Outline) (label : String) : Prop where
  isLabel : IsLabel label
  ne_step : ∀ i, stepLabel i ≠ label
  ne_examples : ∀ i, i < o.examples.length → examplesLabel i ≠ label
  ne_row : ∀ i, i < o.scenarios.length → rowLabel (i + 1) ≠ label

theorem vacant_row (o : Outline) : Vacant o (rowLabel (o.scenarios.length + 1)) where
  isLabel := isLabel_row _
  ne_step _ := stepLabel_ne_rowLabel _ _
  ne_examples _ _ := examplesLabel_ne_rowLabel _ _
  ne_row _ := rowLabel_ne_next

theorem vacant_examples (o : Outline) : Vacant o (examplesLabel o.examples.length) where
  isLabel := isLabel_examples _
  ne_step _ := stepLabel_ne_examplesLabel _ _
  ne_examples _ := examplesLabel_ne_next
  ne_row _ _ := (examplesLabel_ne_rowLabel _ _).symm

/-- While the store grows at a vacant label, the outline stays as it is. -/
theorem outlineBuilt_of_grows {label : String}
    (h : s.OutlinePlaced (s.get r).featureId r (s.get r).id) (hlabel : Vacant (s.get r) label)
    (hgrows : Grows (PartsUnder (part (s.get r).id label)) untouched s s') :
    OutlineBuilt r s s' := by
  have hsame : s'.get r = s.get r := hgrows.get_outline h.placed.has id
  have hplaced : s'.OutlinePlaced (s.get r).featureId r (s.get r).id := by
    constructor
    case placed => exact h.placed.grows hgrows fun e he => not_under_part_self _ _ he.1
    case featureId => rw [hsame]
    case steps =>
      rw [hsame]
      exact h.steps.grows_part hgrows hlabel.isLabel (fun i _ => hlabel.ne_step _) fun _ => id
    case examples =>
      rw [hsame]
      exact h.examples.grows_part hgrows hlabel.isLabel hlabel.ne_examples fun _ => id
    case rows =>
      rw [hsame]
      exact h.rows.grows_part hgrows hlabel.isLabel hlabel.ne_row fun _ _ => id
  exact ⟨hgrows.mono (fun _ _ => .of_part hlabel.isLabel) fun _ => False.elim, hplaced,
    by rw [hsame]⟩

/-- The lists of the outline may change as long as all that is in them is placed. -/
theorem outlineBuilt_modify (h : s.OutlinePlaced (s.get r).featureId r (s.get r).id)
    {f : Outline → Outline}
    (hframe : ∀ o, { f o with examples := [], scenarios := [] } =
      { o with examples := [], scenarios := [] })
    (hexamples : s.ExamplesPlaced (s.get r).id (f (s.get r)).examples)
    (hrows : s.RowsPlaced (s.get r).featureId (s.get r).id (f (s.get r)).scenarios) :
    OutlineBuilt r s (s.modify r f) := by
  have hget := get_modify_self s r f h.placed.has
  have hgrows : Grows nowhere (· = .outline r) s (s.modify r f) :=
    .modify_hole (fun o => (congrArg Outline.id (hframe o) :)) rfl
  have hplaced : (s.modify r f).OutlinePlaced (s.get r).featureId r (s.get r).id := by
    constructor
    case placed => exact h.placed.grows hgrows fun _ => id
    case featureId =>
      rw [hget]
      exact (congrArg Outline.featureId (hframe _) :)
    case steps =>
      have hsteps : (f (s.get r)).steps = (s.get r).steps := (congrArg Outline.steps (hframe _) :)
      rw [hget, hsteps]
      exact h.steps.grows hgrows (fun _ _ _ _ _ => id) nofun
    case examples =>
      rw [hget]
      exact hexamples.grows hgrows (fun _ _ _ _ _ => id) nofun
    case rows =>
      rw [hget]
      exact hrows.grows hgrows (fun _ _ _ _ _ => id) (sparesRows_outline r)
  exact ⟨hgrows.mono (fun _ _ => False.elim) fun _ => id, hplaced, by rw [hget, hframe]⟩

/-! ## Building a row -/

/-- **A row becomes a scenario under the next number.** -/
theorem row_built (h : s.OutlinePlaced (s.get r).featureId r (s.get r).id)
    (headers cells : List Value) :
    Ensures (row r headers cells) s (OutlineBuilt r s) fun _ s' => (∃ row,
      s'.get r = { s.get r with scenarios := (s.get r).scenarios ++ [row] }) ∧
      Fills (·.outlineParts r) s s' := by
  unfold row
  rw [ensures_bind_get]
  refine ensures_bind_check (.refl h) ?_
  rintro ⟨x, xs⟩ hx
  obtain ⟨hid, hfeature, houtline, hsteps⟩ := Outline.explodeRow_ok hx
  set rowId := part (s.get r).id (rowLabel ((s.get r).scenarios.length + 1))
  have hbuilt : ∀ {s'}, Grows (PartsUnder rowId) untouched s s' → OutlineBuilt r s s' :=
    outlineBuilt_of_grows h (vacant_row (s.get r))
  -- the steps come in first, still unregistered
  refine .bind_of (addSteps_ensures s xs)
    (fun _ h => hbuilt (h.mono (fun _ _ => False.elim) fun _ => id)) fun refs s₁ hadd hrefs => ?_
  rw [ensures_bind_register]
  set y := { x with steps := refs }
  set s₂ := (s₁.register y).1
  set rowRef := (s₁.register y).2
  have hregister : Grows (PartsUnder rowId) untouched s₁ s₂ :=
    .register_part s₁ hid fun _ => trivial
  have hgrows₂ : Grows (PartsUnder rowId) untouched s s₂ :=
    (hadd.mono (fun _ _ => False.elim) fun _ => id).trans hregister (fun _ _ => id) fun _ h _ => h
  have hrefs₂ : Numbered (fun i r => s₂.Has (.step r) ∧
      (s₂.get r).id = part rowId (stepLabel (i + 1)) ∧ (s₂.get r).scenarioId = rowId) refs := by
    refine hrefs.mono ?_
    rintro i r - ⟨hhas, hget⟩
    rw [hregister.get_step hhas id]
    have hr := hsteps i _ hget
    rw [hid] at hr
    exact ⟨hregister.has hhas, hr⟩
  refine .bind_of (enterSteps_ensures hrefs₂) (fun _ h => hbuilt ?_)
    fun _ s₃ henter ⟨hplaced, hadmits⟩ => ?_
  · exact hgrows₂.trans h (fun _ _ h => h.1) fun _ h _ => h
  have hbuilt₃ := hbuilt (hgrows₂.trans henter (fun _ _ h => h.1) fun _ h _ => h)
  have hsame : s₃.get r = s.get r :=
    (hgrows₂.trans henter (fun _ _ h => h.1) fun _ h _ => h).get_outline h.placed.has id
  have hy : s₃.get rowRef = y :=
    (henter.get_scenario (has_register_self s₁ y) id).trans (get_register_self s₁ y)
  have hrow : s₃.ScenarioPlaced (s₃.get r).featureId (some (s₃.get r).id) rowRef rowId := by
    have hreg := placed_register s₁ y
    rw [show Record.id y = rowId from hid] at hreg
    refine ⟨hreg.grows henter fun _ he => he.2 rfl, ?_, ?_, ?_⟩
    · rw [hy, hsame, ← hfeature]
    · rw [hy, hsame, ← houtline]
    · rw [hy]
      exact hplaced
  -- the row joins the outline
  set s₄ := s₃.modify r fun o => { o with scenarios := o.scenarios ++ [rowRef] }
  have hjoin : Grows nowhere (· = .outline r) s₃ s₄ := .modify_hole (fun _ => rfl) rfl
  have hget₄ : s₄.get r = { s.get r with scenarios := (s.get r).scenarios ++ [rowRef] } := by
    rw [get_modify_self s₃ r _ hbuilt₃.placed.placed.has, hsame]
  have hbuilt₄ : OutlineBuilt r s s₄ := by
    refine hbuilt₃.trans (outlineBuilt_modify hbuilt₃.placed_self (fun _ => rfl)
      hbuilt₃.placed_self.examples ?_)
    refine hbuilt₃.placed_self.rows.append ?_
    rw [hsame] at hrow ⊢
    exact hrow
  refine ensures_change hbuilt₄ ⟨⟨rowRef, hget₄⟩, hbuilt₄.parts_subset h ?_ ?_, ?_⟩
  · rw [hget₄]
    exact fun _ => id
  · rw [hget₄]
    exact fun _ => List.mem_append_left _
  · have hparts : .scenario rowRef :: refs.map .step = s₄.scenarioParts rowRef := by
      rw [scenarioParts_grows hrow.placed.has hjoin nofun, scenarioParts, hy]
    have hmem : ∀ e ∈ Entry.scenario rowRef :: refs.map .step, e ∈ s₄.outlineParts r := by
      intro e he
      have hmem : rowRef ∈ (s₄.get r).scenarios := by
        rw [hget₄]
        exact List.mem_append_right _ (List.mem_singleton_self rowRef)
      exact mem_outlineParts.mpr (.inr (.inr (.inr ⟨rowRef, hmem, hparts ▸ he⟩)))
    have hregistered : Admits (· ∈ s₄.outlineParts r) s₁ s₂ :=
      .register s₁ (hmem _ (List.mem_cons_self ..))
    exact ((Admits.nowhere hadd).trans hregistered).trans
      ((hadmits.mono fun _ he => hmem _ (List.mem_cons_of_mem _ he)).trans (.nowhere hjoin))

/-! ## Building examples -/

/-- The header cells of a table, which may have no header. -/
def headerCells (header : Value) : Except Fault (List Value) :=
  if header.isPresent then rowCells header else .ok []

/-- Puts the rows of a node into a table, the table into its outline, and builds the rows. -/
def fillTable (outline : Ref Outline) (table : Ref Examples) (node header : Value)
    (headers : List Value) : Build Unit := do
  change table fun e => { e with
    rows := if header.isPresent then [headers] else []
    hasHeader := header.isPresent }
  let body ← check (do (← node.elementsOf "tableBody").mapM rowCells)
  change table fun e => { e with rows := e.rows ++ body }
  change outline fun o => { o with examples := o.examples ++ [table] }
  body.forM (row outline headers)

theorem examples_eq (site : Site) (outline : Ref Outline) (node : Value) :
    examples site outline node = (do
      if ← check (do declaresExcluded site.excluded (← node.field "tags")) then return
      let o ← read outline
      let numbered := "examples_" ++ toString o.examples.length
      let given ← check (node.field "name")
      let r ← register {
        id := o.id ++ ":" ++ numbered
        name := given.orElse (.text numbered)
        keyword := ← check (node.field "keyword" (.text ""))
        title := given.orElse (.text "")
        location := ← check (locationOf node site.file)
        description := ← check (optionalField node "description")
        outlineId := o.id : Examples }
      declareAll site.file (← check (node.field "tags")) (some (.examples r))
      let header ← check (node.field "tableHeader")
      fillTable outline r node header (← check (headerCells header))) := by
  unfold examples
  refine bind_congr fun excluded => ?_
  split
  · rfl
  · refine bind_congr fun o => bind_congr fun _ => bind_congr fun _ => ?_
    refine bind_congr fun _ => bind_congr fun _ => bind_congr fun r => ?_
    refine bind_congr fun _ => bind_congr fun _ => bind_congr fun header => ?_
    extract_lets rest
    have hrest : rest = fillTable outline r node header := rfl
    rw [hrest, headerCells]
    split <;> rfl

/-- A table as it comes in for an outline: under the next number, and still without tags. -/
structure TableComesIn (s : Store) (o : Ref Outline) (x : Examples) : Prop where
  id : x.id = part (s.get o).id (examplesLabel (s.get o).examples.length)
  outlineId : x.outlineId = (s.get o).id
  tags : x.tags = []

/-- An examples node is passed over, or a table comes in for it that is tagged and filled. -/
theorem ensures_examples {s : Store} {site : Site} {o : Ref Outline} {node : Value}
    {I : Store → Prop} {R : Unit → Store → Prop} (hI : I s)
    (hpassed : node.isExcluded site.excluded = true → R () s)
    (hfill : ∀ x, node.isExcluded site.excluded = false → TableComesIn s o x →
      Ensures (do
        declareAll site.file (← check (node.field "tags")) (some (.examples (s.register x).2))
        let header ← check (node.field "tableHeader")
        fillTable o (s.register x).2 node header (← check (headerCells header)))
        (s.register x).1 I R) :
    Ensures (examples site o node) s I R := by
  rw [examples_eq]
  refine ensures_bind_check hI fun excluded hexcluded => ?_
  have hkept := isExcluded_of_check hexcluded
  split
  · rename_i hyes
    exact .pure hI (hpassed (hkept.trans hyes))
  · rename_i hno
    rw [ensures_bind_read]
    refine ensures_bind_check hI fun given _ => ?_
    refine ensures_bind_check hI fun keyword _ => ?_
    refine ensures_bind_check hI fun location _ => ?_
    refine ensures_bind_check hI fun description _ => ?_
    rw [ensures_bind_register]
    exact hfill _ (hkept.trans (eq_false_of_ne_true hno)) ⟨rfl, rfl, rfl⟩

/-- A table has come in at the next number of the outline, and is not yet listed there. -/
structure TableAt (outline : Ref Outline) (table : Ref Examples) (s s' : Store) : Prop where
  grows : Grows (PartsUnder (part (s.get outline).id (examplesLabel (s.get outline).examples.length)))
    untouched s s'
  isNew : ¬ s.Has (.examples table)
  placed : s'.Placed (.examples table)
    (part (s.get outline).id (examplesLabel (s.get outline).examples.length))
  outlineId : (s'.get table).outlineId = (s.get outline).id

theorem TableAt.modify {table : Ref Examples} (h : TableAt r table s s') {f : Examples → Examples}
    (hid : ∀ e, (f e).id = e.id) (houtline : ∀ e, (f e).outlineId = e.outlineId) :
    TableAt r table s (s'.modify table f) := by
  have hgrows : Grows nowhere (· = .examples table) s' (s'.modify table f) :=
    .modify_hole hid rfl
  refine ⟨h.grows.trans hgrows (fun _ _ => False.elim) ?_, h.isNew,
    h.placed.grows hgrows fun _ => id, ?_⟩
  · rintro _ rfl hhas
    exact h.isNew hhas
  · rw [get_modify_self s' table f h.placed.has, houtline, h.outlineId]

theorem TableAt.retags {table : Ref Examples} (h : TableAt r table s s')
    (hretags : Retags (.examples table) s' s'') : TableAt r table s s'' := by
  refine ⟨h.grows.trans hretags.grows (fun _ _ => False.elim) ?_, h.isNew,
    h.placed.grows hretags.grows fun _ => id, ?_⟩
  · rintro _ rfl hhas
    exact h.isNew hhas
  · have hsame : { s''.get table with tags := [] } = { s'.get table with tags := [] } :=
      Content.examples.inj hretags.untagged
    rw [← h.outlineId]
    exact (congrArg Examples.outlineId hsame :)

theorem TableAt.built {table : Ref Examples} (h : TableAt r table s s')
    (hplaced : s.OutlinePlaced (s.get r).featureId r (s.get r).id) : OutlineBuilt r s s' :=
  outlineBuilt_of_grows hplaced (vacant_examples _) h.grows

/-- The outline has one scenario for each row of its tables. -/
def Exploded (s : Store) (r : Ref Outline) : Prop :=
  (s.get r).scenarios.length = s.expectedScenarios (s.get r)

/-- The rows of tables that stay as they are are counted as before; those of one more table come
in addition. -/
theorem expectedScenarios_of_append {o o' : Outline} {table : Ref Examples}
    (hexamples : o'.examples = o.examples ++ [table])
    (hsame : ∀ e ∈ o.examples, s'.get e = s.get e) :
    s'.expectedScenarios o' = s.expectedScenarios o + (s'.get table).dataRows.length := by
  have hmap : o.examples.map (fun e => (s'.get e).dataRows.length) =
      o.examples.map fun e => (s.get e).dataRows.length :=
    List.map_congr_left fun e he => by rw [hsame e he]
  simp [expectedScenarios, hexamples, hmap]

theorem rows_built (h : s.OutlinePlaced (s.get r).featureId r (s.get r).id) (headers : List Value)
    (body : List (List Value)) :
    Ensures (body.forM (row r headers)) s (OutlineBuilt r s) fun _ s' =>
      (s'.get r).examples = (s.get r).examples ∧
        (s'.get r).scenarios.length = (s.get r).scenarios.length + body.length ∧
        Fills (·.outlineParts r) s s' := by
  refine .forM (fun done s' => (s'.get r).examples = (s.get r).examples ∧
    (s'.get r).scenarios.length = (s.get r).scenarios.length + done.length ∧
    Fills (·.outlineParts r) s s') (.refl h) ⟨rfl, rfl, .refl s⟩ ?_
  intro done cells rest s' _ hbuilt ⟨hexamples, hlength, hfills⟩
  refine (row_built hbuilt.placed_self headers cells).weaken (fun _ h => hbuilt.trans h) ?_
  rintro _ s'' - ⟨⟨row, hget⟩, hnext⟩
  rw [hget]
  refine ⟨hexamples, ?_, hfills.trans hnext⟩
  simp only [List.length_append, List.length_singleton, hlength]
  omega

theorem fillTable_built {table : Ref Examples} (h : TableAt r table s s')
    (hadmits : Admits (· = .examples table) s s')
    (hplaced : s.OutlinePlaced (s.get r).featureId r (s.get r).id) (node header : Value)
    (headers : List Value) :
    Ensures (fillTable r table node header headers) s' (OutlineBuilt r s) fun _ s'' =>
      (Exploded s r → Exploded s'' r) ∧ Fills (·.outlineParts r) s s'' := by
  unfold fillTable
  rw [ensures_bind_change]
  set s₁ := s'.modify table _ with hs₁
  have h₁ : TableAt r table s s₁ := h.modify (fun _ => rfl) fun _ => rfl
  refine ensures_bind_check (h₁.built hplaced) fun body _ => ?_
  rw [ensures_bind_change, ensures_bind_change]
  set s₂ := s₁.modify table _ with hs₂
  have h₂ : TableAt r table s s₂ := h₁.modify (fun _ => rfl) fun _ => rfl
  have hbuilt₂ := h₂.built hplaced
  have hsame : s₂.get r = s.get r := h₂.grows.get_outline hplaced.placed.has id
  have hrows₂ : (s₂.get table).dataRows = body := by
    rw [hs₂, get_modify_self s₁ table _ h₁.placed.has, hs₁, get_modify_self s' table _ h.placed.has]
    cases header.isPresent <;> simp [Examples.dataRows]
  -- the table joins the outline
  set s₃ := s₂.modify r _ with hs₃
  have hbuilt₃ : OutlineBuilt r s₂ s₃ := by
    refine outlineBuilt_modify hbuilt₂.placed_self (fun _ => rfl) ?_ hbuilt₂.placed_self.rows
    refine hbuilt₂.placed_self.examples.append ?_
    rw [hsame]
    exact ⟨h₂.placed, h₂.outlineId⟩
  have hget₃ : s₃.get r = { s.get r with examples := (s.get r).examples ++ [table] } := by
    rw [hs₃, get_modify_self s₂ r _ hbuilt₂.placed.placed.has, hsame]
  have hall₃ := hbuilt₂.trans hbuilt₃
  have hfills₃ : Fills (·.outlineParts r) s s₃ := by
    refine ⟨hall₃.parts_subset hplaced ?_ ?_, ?_⟩
    · rw [hget₃]
      exact fun _ => List.mem_append_left _
    · rw [hget₃]
      exact fun _ => id
    · have hmem : table ∈ (s₃.get r).examples := by
        rw [hget₃]
        exact List.mem_append_right _ (List.mem_singleton_self table)
      have hadmits₁ : Admits (· = .examples table) s s₁ := hadmits.trans (.modify s' table _)
      have hadmits₂ : Admits (· = .examples table) s s₂ := hadmits₁.trans (.modify s₁ table _)
      have hadmits₃ : Admits (· = .examples table) s s₃ := hadmits₂.trans (.modify s₂ r _)
      refine hadmits₃.mono ?_
      rintro _ rfl
      exact mem_outlineParts.mpr (.inr (.inr (.inl ⟨table, hmem, rfl⟩)))
  refine (rows_built hall₃.placed_self headers body).weaken (fun _ h => hall₃.trans h) ?_
  rintro _ s₄ hbuilt₄ ⟨hexamples, hlength, hfills⟩
  refine ⟨fun hexploded => ?_, hfills₃.trans hfills⟩
  have hall₄ := hall₃.trans hbuilt₄
  rw [hget₃] at hexamples hlength
  have htable : s₄.get table = s₂.get table := by
    have hhas := h₂.placed.has
    rw [hbuilt₄.grows.get_examples (hbuilt₃.grows.has hhas) nofun,
      hbuilt₃.grows.get_examples hhas nofun]
  have hold : ∀ e ∈ (s.get r).examples, s₄.get e = s.get e := by
    intro e he
    obtain ⟨i, hi, -⟩ := hplaced.examples.exists_of_mem he
    exact hall₄.grows.get_examples hi.has nofun
  unfold Exploded at hexploded ⊢
  rw [hlength, expectedScenarios_of_append hexamples hold, htable, hrows₂, ← hexploded]

/-- **An examples table is registered under its number, with one scenario for each of its rows.** -/
theorem examples_built (h : s.OutlinePlaced (s.get r).featureId r (s.get r).id) (site : Site)
    (node : Value) :
    Ensures (Build.examples site r node) s (OutlineBuilt r s) fun _ s' =>
      (Exploded s r → Exploded s' r) ∧ Fills (·.outlineParts r) s s' := by
  refine ensures_examples (.refl h) (fun _ => ⟨id, .refl s⟩) fun x _ hx => ?_
  set s₁ := (s.register x).1
  set table := (s.register x).2
  have h₁ : TableAt r table s s₁ := by
    refine ⟨.register_part s hx.id fun _ => trivial, not_has_register_self s x, ?_, ?_⟩
    · exact hx.id ▸ placed_register s x
    · rw [get_register_self, hx.outlineId]
  refine ensures_bind_check (h₁.built h) fun tags _ => ?_
  refine .bind_of (declareAll_retags h₁.placed.has nofun nofun site.file tags)
    (fun _ h₂ => (h₁.retags h₂).built h) fun _ s₂ hretags _ => ?_
  have h₂ := h₁.retags hretags
  have hadmits₁ : Admits (· = .examples table) s s₁ := .register s rfl
  have hadmits₂ := hadmits₁.trans (.nowhere hretags.grows)
  refine ensures_bind_check (h₂.built h) fun header _ => ?_
  exact ensures_bind_check (h₂.built h) fun headers _ =>
    fillTable_built h₂ hadmits₂ h node header headers

end Build

end StepTrace
