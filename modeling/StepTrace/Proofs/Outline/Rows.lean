import StepTrace.Proofs.Tags.Documents

/-!
# The rows of an outline

An outline that has been built says what its scenarios are: the data rows of its tables, in order
and through all tables, each make one scenario, which is numbered by the place of its row and holds
one step for each template, with the placeholders filled in from this row and the headers of its
table (`Store.RowOf`).  The templates are the steps as the document has them (`Store.TemplateOf`), and the
tables are those of the document that are kept (`Store.Tabulates`).

`Store.Unfolded` says this of an outline and of given rows, so that it also holds while a table is
gone through: its rows are listed before their scenarios are made.  A row keeps it
(`row_unfolded`), and so do a table and all tables one after the other (`tables_unfolded`).
-/

namespace StepTrace

/-! ## What a row makes of an outline -/

namespace Outline

/-- The second value is the first with the placeholders filled in. -/
def Filled (headers cells : List Value) (v v' : Value) : Prop :=
  fillValue v headers cells = .ok v'

/-- What a row makes of the template at a position. -/
structure Copied (headers cells : List Value) (owner : String) (template : Step × Nat) (x : Step) :
    Prop where
  id : x.id = owner ++ ":step_" ++ toString template.2
  keyword : x.keyword = template.1.keyword
  location : x.location = template.1.location
  scenarioId : x.scenarioId = owner
  text : Filled headers cells template.1.text x.text
  docString : Option.Rel (Filled headers cells) template.1.docString x.docString
  table : Option.Rel (List.Forall₂ (List.Forall₂ (Filled headers cells))) template.1.table x.table
  unlinked : x.Unlinked

/-- The outline without its tables and scenarios. -/
def frame (o : Outline) : Outline :=
  { o with examples := [], scenarios := [] }

/-- The scenario of the row with a number, without its steps. -/
def rowScenario (o : Outline) (number : Nat) : Scenario where
  id := o.id ++ ":example_" ++ toString number
  kind := .exploded
  keyword := o.keyword
  title := .text (o.title.display ++ " (" ++ toString number ++ ")")
  location := o.location
  description := o.description
  comments := o.comments
  featureId := o.featureId
  outlineId := some o.id

end Outline

namespace Store

/-- The step is the template that the node at a position describes, as it stands in the document. -/
structure TemplateOf (s : Store) (file owner : String) (node : Value × Nat) (r : Ref Step) :
    Prop where
  has : s.Has (.step r)
  read : stepOf node.1 (owner ++ ":step_" ++ toString node.2) owner file = .ok (s.get r)

/-- The table holds the header of the node, if it has one, and its rows. -/
structure Tabulates (s : Store) (node : Value) (r : Ref Examples) : Prop where
  has : s.Has (.examples r)
  hasHeader : (s.get r).hasHeader = (node.partOf "tableHeader").isPresent
  headers : Build.headerCells (node.partOf "tableHeader") = .ok (s.get r).headers
  rows : (node.itemsOf "tableBody").mapM rowCells = .ok (s.get r).dataRows

/-- The scenario is that of the row with the given headers, cells and number. -/
structure RowOf (s : Store) (o : Outline) (row : (List Value × List Value) × Nat)
    (r : Ref Scenario) : Prop where
  has : s.Has (.scenario r)
  scenario : { s.get r with steps := [] } = o.rowScenario row.2
  stepsHas : ∀ step ∈ (s.get r).steps, s.Has (.step step)
  steps : List.Forall₂ (Outline.Copied row.1.1 row.1.2 (s.get r).id) ((o.steps.map s.get).zipIdx 1)
    ((s.get r).steps.map s.get)

/-- The data rows of the tables of an outline, each with the headers of its table. -/
def rowsOf (s : Store) (o : Outline) : List (List Value × List Value) :=
  o.examples.flatMap fun r => (s.get r).dataRows.map fun cells => ((s.get r).headers, cells)

/-- The outline has the given templates and tables, and one scenario for each of the given rows. -/
structure Unfolded (s : Store) (file : String) (templates tables : List Value)
    (rows : List (List Value × List Value)) (r : Ref Outline) : Prop where
  has : s.Has (.outline r)
  templates : List.Forall₂ (s.TemplateOf file (s.get r).id) (templates.zipIdx 1) (s.get r).steps
  tables : List.Forall₂ s.Tabulates tables (s.get r).examples
  rows : List.Forall₂ (s.RowOf (s.get r)) (rows.zipIdx 1) (s.get r).scenarios

theorem length_rowsOf (s : Store) (o : Outline) : (s.rowsOf o).length = s.expectedScenarios o := by
  simp [rowsOf, expectedScenarios, List.length_flatMap, List.sum_eq_foldl]

/-- One scenario for each row is as many as the tables have rows. -/
theorem Unfolded.length_scenarios {s : Store} {file : String} {templates tables : List Value}
    {r : Ref Outline} (h : s.Unfolded file templates tables (s.rowsOf (s.get r)) r) :
    (s.get r).scenarios.length = s.expectedScenarios (s.get r) := by
  rw [← length_rowsOf, ← h.rows.length_eq, List.length_zipIdx]

end Store

/-! ## Rows are read as they are -/

section

variable {α β : Type} {f : α → Except Fault β}

/-- What comes of a list without a fault comes of its elements. -/
theorem forall₂_of_mapM {xs : List α} {ys : List β} (h : xs.mapM f = .ok ys) :
    List.Forall₂ (fun x y => f x = .ok y) xs ys := by
  induction xs generalizing ys with
  | nil =>
      cases h
      exact .nil
  | cons x xs ih =>
      simp only [List.mapM_cons, bind, Except.bind] at h
      split at h
      · cases h
      · rename_i y hy
        split at h
        · cases h
        · rename_i rest hrest
          cases h
          exact .cons hy (ih hrest)

theorem rel_of_mapM {R : α → β → Prop} {x : Option α} {y : Option β} (h : x.mapM f = .ok y)
    (hR : ∀ x y, f x = .ok y → R x y) : Option.Rel R x y := by
  cases x with
  | none =>
      cases h
      exact .none
  | some x =>
      change (do let y ← f x; pure (some y)) = Except.ok y at h
      cases hx : f x with
      | error fault =>
          rw [hx] at h
          cases h
      | ok y =>
          rw [hx] at h
          cases h
          exact .some (hR x y hx)

end

namespace Outline

variable {headers cells : List Value}

theorem copyStep_copied {template x : Step} {owner : String} {position : Nat}
    (h : copyStep template (owner ++ ":step_" ++ toString position) owner headers cells = .ok x) :
    Copied headers cells owner (template, position) x := by
  simp only [copyStep, bind, Except.bind] at h
  split at h
  · cases h
  rename_i docString hdoc
  split at h
  · cases h
  rename_i table htable
  split at h
  · cases h
  rename_i text htext
  cases h
  refine ⟨rfl, rfl, rfl, rfl, htext, rel_of_mapM hdoc fun _ _ h => h, ?_, rfl, rfl⟩
  exact rel_of_mapM htable fun _ _ hrows => (forall₂_of_mapM hrows).imp fun _ _ => forall₂_of_mapM

theorem copySteps_copied {owner : String} {position : Nat} {templates xs : List Step}
    (h : copySteps owner headers cells position templates = .ok xs) :
    List.Forall₂ (Copied headers cells owner) (templates.zipIdx position) xs := by
  induction templates generalizing position xs with
  | nil =>
      cases h
      exact .nil
  | cons template templates ih =>
      simp only [copySteps, bind, Except.bind] at h
      split at h
      · cases h
      rename_i x hx
      split at h
      · cases h
      rename_i rest hrest
      cases h
      exact .cons (copyStep_copied hx) (ih hrest)

/-- **A row makes the scenario with the next number and one step of each template.** -/
theorem explodeRow_exact {o : Outline} {templates : List Step} {x : Scenario} {xs : List Step}
    (h : o.explodeRow templates headers cells = .ok (x, xs)) :
    x = o.rowScenario (o.scenarios.length + 1) ∧
      List.Forall₂ (Copied headers cells x.id) (templates.zipIdx 1) xs := by
  simp only [explodeRow, bind, Except.bind] at h
  split at h
  · cases h
  rename_i copied hcopied
  cases h
  exact ⟨rfl, copySteps_copied hcopied⟩

end Outline

/-! ## What is there stays -/

/-- Anything may be registered. -/
def anywhere (_ : String) (_ : Entry) : Prop := True

namespace Store

variable {s s' s'' : Store} {region : String → Entry → Prop} {hole : Entry → Prop}

/-- What is set aside need not be if it has come in. -/
theorem Grows.trans_new {e : Entry} (h : Grows anywhere hole s s') (hnew : ¬ s.Has e)
    (h' : Grows region (· = e) s' s'') : Grows anywhere hole s s'' :=
  h.trans_fresh hnew h' fun _ _ _ => trivial

theorem Grows.trans_same (h : Grows anywhere hole s s') (h' : Grows region hole s' s'') :
    Grows anywhere hole s s'' :=
  h.trans h' (fun _ _ _ => trivial) fun _ he _ => he

/-- Of what was there only the lists of tables and scenarios of an outline have changed. -/
structure Lengthened (r : Ref Outline) (s s' : Store) : Prop where
  grows : Grows anywhere (· = .outline r) s s'
  frame : (s'.get r).frame = (s.get r).frame

namespace Lengthened

variable {r : Ref Outline}

theorem refl (r : Ref Outline) (s : Store) : Lengthened r s s :=
  ⟨.refl s, rfl⟩

theorem trans (h : Lengthened r s s') (h' : Lengthened r s' s'') : Lengthened r s s'' :=
  ⟨h.grows.trans_same h'.grows, h'.frame.trans h.frame⟩

/-- What comes in beside the outline leaves it as it is. -/
theorem of_grows (h : Grows anywhere untouched s s') (hr : s.Has (.outline r)) :
    Lengthened r s s' := by
  refine ⟨h.set_aside, ?_⟩
  rw [h.get_outline hr id]

theorem steps_eq (h : Lengthened r s s') : (s'.get r).steps = (s.get r).steps :=
  (congrArg Outline.steps h.frame :)

theorem id_eq (h : Lengthened r s s') : (s'.get r).id = (s.get r).id :=
  (congrArg Outline.id h.frame :)

end Lengthened

/-! ## Parts of an outline that stay -/

section

variable {r : Ref Outline} {file : String} {templates tables : List Value}
variable {rows : List (List Value × List Value)}

theorem TemplateOf.grows {owner : String} {node : Value × Nat} {x : Ref Step}
    (h : s.TemplateOf file owner node x) (hgrows : Grows region hole s s')
    (hout : ¬ hole (.step x)) : s'.TemplateOf file owner node x := by
  refine ⟨hgrows.has h.has, ?_⟩
  rw [hgrows.get_step h.has hout]
  exact h.read

theorem Tabulates.grows {node : Value} {x : Ref Examples} (h : s.Tabulates node x)
    (hgrows : Grows region hole s s') (hout : ¬ hole (.examples x)) : s'.Tabulates node x := by
  have hsame := hgrows.get_examples h.has hout
  refine ⟨hgrows.has h.has, ?_, ?_, ?_⟩
  · rw [hsame, h.hasHeader]
  · rw [hsame, h.headers]
  · rw [hsame, h.rows]

theorem RowOf.grows {o o' : Outline} {row : (List Value × List Value) × Nat} {x : Ref Scenario}
    (h : s.RowOf o row x) (hgrows : Grows region hole s s') (hframe : o'.frame = o.frame)
    (htemplates : ∀ step ∈ o.steps, s.Has (.step step)) (hscenario : ¬ hole (.scenario x))
    (hstep : ∀ step, ¬ hole (.step step)) : s'.RowOf o' row x := by
  have hsame := hgrows.get_scenario h.has hscenario
  have hsteps : ∀ {steps : List (Ref Step)}, (∀ step ∈ steps, s.Has (.step step)) →
      steps.map s'.get = steps.map s.get :=
    fun hhas => List.map_congr_left fun step hmem => hgrows.get_step (hhas step hmem) (hstep step)
  refine ⟨hgrows.has h.has, ?_, ?_, ?_⟩
  · rw [hsame, h.scenario]
    exact (congrArg (Outline.rowScenario · row.2) hframe :).symm
  · rw [hsame]
    exact fun step hmem => hgrows.has (h.stepsHas step hmem)
  · rw [show o'.steps = o.steps from (congrArg Outline.steps hframe :), hsame, hsteps htemplates,
      hsteps h.stepsHas]
    exact h.steps

theorem Unfolded.templatesHas (h : s.Unfolded file templates tables rows r) :
    ∀ step ∈ (s.get r).steps, s.Has (.step step) := by
  intro step hmem
  obtain ⟨node, -, hnode⟩ := exists_left_of_forall₂ h.templates hmem
  exact hnode.has

/-- The tables and scenarios that an outline has stay while others are added to it. -/
theorem Unfolded.lengthened (h : s.Unfolded file templates tables rows r)
    (hlonger : Lengthened r s s') :
    List.Forall₂ (s'.TemplateOf file (s'.get r).id) (templates.zipIdx 1) (s'.get r).steps ∧
      List.Forall₂ s'.Tabulates tables (s.get r).examples ∧
        List.Forall₂ (s'.RowOf (s'.get r)) (rows.zipIdx 1) (s.get r).scenarios := by
  refine ⟨?_, ?_, ?_⟩
  · rw [hlonger.steps_eq, hlonger.id_eq]
    exact h.templates.imp fun _ _ hx => hx.grows hlonger.grows nofun
  · exact h.tables.imp fun _ _ hx => hx.grows hlonger.grows nofun
  · exact h.rows.imp fun _ _ hx => hx.grows hlonger.grows hlonger.frame h.templatesHas nofun nofun

/-- What changes elsewhere leaves an outline and all that it holds as they are. -/
theorem Unfolded.grows (h : s.Unfolded file templates tables rows r)
    (hgrows : Grows region hole s s') (hhole : SparesParts hole) :
    s'.Unfolded file templates tables rows r := by
  have hsame := hgrows.get_outline h.has (hhole _ trivial)
  constructor
  case has => exact hgrows.has h.has
  case templates =>
    rw [hsame]
    exact h.templates.imp fun _ _ hx => hx.grows hgrows (hhole _ trivial)
  case tables =>
    rw [hsame]
    exact h.tables.imp fun _ _ hx => hx.grows hgrows (hhole _ trivial)
  case rows =>
    rw [hsame]
    exact h.rows.imp fun _ _ hx => hx.grows hgrows rfl h.templatesHas (hhole _ trivial)
      fun _ => hhole _ trivial

end

/-! ## A row comes in -/

theorem addSteps_grows (s : Store) (xs : List Step) :
    Grows anywhere untouched s (s.addSteps xs).1 := by
  induction xs generalizing s with
  | nil => exact .refl s
  | cons x xs ih => exact (Grows.add s x).trans_same (ih _)

theorem get_addSteps (s : Store) (xs : List Step) :
    (s.addSteps xs).2.map (s.addSteps xs).1.get = xs := by
  induction xs generalizing s with
  | nil => rfl
  | cons x xs ih =>
      have hfirst := (addSteps_grows (s.add x).1 xs).get_step (has_add_self s x) id
      rw [get_add_self] at hfirst
      exact congrArg₂ List.cons hfirst (ih _)

theorem enterAll_grows {refs : List (Ref Step)} (hrefs : ∀ r ∈ refs, s.Has (.step r)) :
    Grows anywhere untouched s (refs.foldl enter s) := by
  induction refs generalizing s with
  | nil => exact .refl s
  | cons r refs ih =>
      obtain ⟨hr, hrest⟩ := List.forall_mem_cons.mp hrefs
      have henter : Grows anywhere untouched s (s.enter r) := .enter hr trivial
      exact henter.trans_same (ih fun x hx => henter.has (hrest x hx))

/-- A row that comes in is the last scenario of its outline, and holds the steps that came in with
it. -/
theorem addRow_lengthened {r : Ref Outline} (hr : s.Has (.outline r)) (x : Scenario)
    (xs : List Step) :
    Lengthened r s (s.addRow r x xs) ∧ ∃ row,
      (s.addRow r x xs).get r = { s.get r with scenarios := (s.get r).scenarios ++ [row] } ∧
      (s.addRow r x xs).Has (.scenario row) ∧
      { (s.addRow r x xs).get row with steps := [] } = { x with steps := [] } ∧
      (∀ step ∈ ((s.addRow r x xs).get row).steps, (s.addRow r x xs).Has (.step step)) ∧
      (((s.addRow r x xs).get row).steps.map (s.addRow r x xs).get = xs) := by
  set s₁ := (s.addSteps xs).1
  set refs := (s.addSteps xs).2
  set y : Scenario := { x with steps := refs }
  set s₂ := (s₁.register y).1
  set row := (s₁.register y).2
  set s₃ := refs.foldl enter s₂
  have hadd : Grows anywhere untouched s s₁ := addSteps_grows s xs
  have hrefs : ∀ step ∈ refs, s₁.Has (.step step) :=
    fun step hmem => ((Build.addSteps_new s xs).2 step hmem).2
  have hregister : Grows anywhere untouched s₁ s₂ := .register s₁ fun _ => trivial
  have henter : Grows anywhere untouched s₂ s₃ :=
    enterAll_grows fun step hmem => hregister.has (hrefs step hmem)
  have hjoin : Grows anywhere (· = .outline r) s₃ (s.addRow r x xs) :=
    .modify_hole (fun _ => rfl) rfl
  have hgrows₃ := (hadd.trans_same hregister).trans_same henter
  have hget : (s.addRow r x xs).get r =
      { s.get r with scenarios := (s.get r).scenarios ++ [row] } := by
    refine (get_modify_self s₃ r _ (hgrows₃.has hr)).trans ?_
    rw [hgrows₃.get_outline hr id]
    rfl
  have hrow : (s.addRow r x xs).get row = y := by
    have hhas : s₂.Has (.scenario row) := has_register_self s₁ y
    rw [hjoin.get_scenario (henter.has hhas) nofun, henter.get_scenario hhas id,
      get_register_self]
  -- From here on only the outline itself is written to, so the row's records are read off `s₁`.
  have hgrows₁ : Grows anywhere (· = .outline r) s₁ (s.addRow r x xs) :=
    (hregister.trans_same henter).set_aside.trans_same hjoin
  refine ⟨⟨hadd.set_aside.trans_same hgrows₁, ?_⟩, row, hget,
    hjoin.has (henter.has (has_register_self s₁ y)), ?_, ?_, ?_⟩
  · rw [hget]
    rfl
  · rw [hrow]
  · rw [hrow]
    exact fun step hmem => hgrows₁.has (hrefs step hmem)
  · rw [hrow]
    refine Eq.trans (List.map_congr_left fun step hmem => ?_) (get_addSteps s xs)
    exact hgrows₁.get_step (hrefs step hmem) nofun

end Store

namespace Build

open Store

variable {s s' s'' : Store} {r : Ref Outline} {file : String} {templates tables : List Value}
variable {rows : List (List Value × List Value)}

/-- In lists that match element by element, one more element of each may be added. -/
theorem forall₂_concat {α β : Type} {R : α → β → Prop} {xs : List α} {ys : List β} {x : α} {y : β}
    (h : List.Forall₂ R xs ys) (hxy : R x y) : List.Forall₂ R (xs ++ [x]) (ys ++ [y]) :=
  List.rel_append h (.cons hxy .nil)

/-- **A row makes the next scenario of its outline.** -/
theorem row_unfolded (h : s.Unfolded file templates tables rows r) (headers cells : List Value) :
    Ensures (row r headers cells) s (fun _ => True) fun _ s' => Lengthened r s s' ∧
      (s'.get r).examples = (s.get r).examples ∧
        s'.Unfolded file templates tables (rows ++ [(headers, cells)]) r := by
  refine ⟨trivial, fun result hresult => ?_⟩
  rw [run_row] at hresult ⊢
  cases hrow : (s.get r).explodeRow ((s.get r).steps.map fun r => s.get r) headers cells with
  | error fault =>
      rw [hrow] at hresult
      cases hresult
  | ok made =>
      obtain ⟨x, xs⟩ := made
      obtain ⟨hx, hxs⟩ := Outline.explodeRow_exact hrow
      obtain ⟨hlonger, y, hget, hhas, hscenario, hstepsHas, hsteps⟩ := addRow_lengthened h.has x xs
      dsimp only
      set s' := s.addRow r x xs
      obtain ⟨htemplates, htables, hrows⟩ := h.lengthened hlonger
      have hnumber : (s.get r).scenarios.length = rows.length := by
        rw [← h.rows.length_eq, List.length_zipIdx]
      have hid : (s'.get y).id = x.id := (congrArg Scenario.id hscenario :)
      have hnext : s'.RowOf (s'.get r) ((headers, cells), rows.length + 1) y := by
        refine ⟨hhas, ?_, hstepsHas, ?_⟩
        · rw [hscenario, hget, ← hnumber, hx]
          rfl
        · have hsame : (s'.get r).steps.map s'.get = (s.get r).steps.map s.get := by
            rw [hlonger.steps_eq]
            exact List.map_congr_left fun step hmem =>
              hlonger.grows.get_step (h.templatesHas step hmem) nofun
          rw [hsteps, hid, hsame]
          exact hxs
      refine ⟨hlonger, by rw [hget], hlonger.grows.has h.has, htemplates, ?_, ?_⟩
      · rw [hget]
        exact htables
      · rw [List.zipIdx_append, Nat.add_comm 1, show (s'.get r).scenarios = _ from
          congrArg Outline.scenarios hget]
        exact forall₂_concat hrows hnext

theorem rows_unfolded (h : s.Unfolded file templates tables rows r) (headers : List Value)
    (body : List (List Value)) :
    Ensures (body.forM (row r headers)) s (fun _ => True) fun _ s' => Lengthened r s s' ∧
      (s'.get r).examples = (s.get r).examples ∧
        s'.Unfolded file templates tables (rows ++ body.map fun cells => (headers, cells)) r := by
  refine .forM (fun done s' => Lengthened r s s' ∧ (s'.get r).examples = (s.get r).examples ∧
    s'.Unfolded file templates tables (rows ++ done.map fun cells => (headers, cells)) r) trivial
    ⟨.refl r s, rfl, by simpa using h⟩ ?_
  rintro done cells _ s₁ - - ⟨hlonger, hexamples, hdone⟩
  refine (row_unfolded hdone headers cells).weaken (fun _ => id) ?_
  rintro _ s₂ - ⟨hnext, hsame, hunfolded⟩
  rw [List.map_append, ← List.append_assoc]
  exact ⟨hlonger.trans hnext, hsame.trans hexamples, hunfolded⟩

/-! ## Tables -/

/-- The rows of a table that has come in as the last one of its outline. -/
theorem rowsOf_concat {o o' : Outline} {table : Ref Examples}
    (hexamples : o'.examples = o.examples ++ [table])
    (hsame : ∀ e ∈ o.examples, s'.get e = s.get e) :
    s'.rowsOf o' = s.rowsOf o ++
      (s'.get table).dataRows.map fun cells => ((s'.get table).headers, cells) := by
  rw [rowsOf, hexamples, List.flatMap_append, List.flatMap_singleton, rowsOf]
  congr 1
  exact List.flatMap_congr fun e he => by rw [hsame e he]

/-- A table that has been filled with the header and the rows of a node is that of the node. -/
theorem tabulates_filled {table : Ref Examples} (htable : s.Has (.examples table))
    {node header : Value} {headers : List Value} {body : List (List Value)}
    (hheader : node.field "tableHeader" = .ok header)
    (hheaders : headerCells header = .ok headers)
    (hbody : (do (← node.elementsOf "tableBody").mapM rowCells) = .ok body)
    (hhasHeader : (s.get table).hasHeader = header.isPresent)
    (hrows : (s.get table).rows = (if header.isPresent then [headers] else []) ++ body) :
    s.Tabulates node table ∧ (s.get table).headers = headers ∧
      (s.get table).dataRows = body := by
  have hfilled : (s.get table).headers = headers ∧ (s.get table).dataRows = body := by
    rw [Examples.headers, Examples.dataRows, hhasHeader, hrows]
    unfold headerCells at hheaders
    cases hpresent : header.isPresent with
    | true => simp
    | false =>
        rw [hpresent] at hheaders
        cases hheaders
        simp
  refine ⟨⟨htable, ?_, ?_, ?_⟩, hfilled⟩
  · rw [hhasHeader, Value.partOf_eq hheader]
  · rw [hfilled.1, Value.partOf_eq hheader, hheaders]
  · simp only [bind, Except.bind] at hbody
    split at hbody
    · cases hbody
    · rename_i items hitems
      rw [hfilled.2, Value.itemsOf_eq hitems, hbody]

/-- A table joins its outline before its rows have become scenarios. -/
theorem addTable_unfolded {rows : List (List Value × List Value)}
    (h : s.Unfolded file templates tables rows r) (hgrows : Grows anywhere untouched s s')
    {node : Value} {table : Ref Examples} (htable : s'.Tabulates node table) :
    let joined := s'.modify r fun o => { o with examples := o.examples ++ [table] }
    Lengthened r s joined ∧ (joined.get r).examples = (s.get r).examples ++ [table] ∧
      joined.Unfolded file templates (tables ++ [node]) rows r := by
  intro joined
  have hget : joined.get r = { s.get r with examples := (s.get r).examples ++ [table] } := by
    rw [get_modify_self s' r _ (hgrows.has h.has), hgrows.get_outline h.has id]
  have hexamples : (joined.get r).examples = (s.get r).examples ++ [table] :=
    congrArg Outline.examples hget
  have hjoin : Grows nowhere (· = .outline r) s' joined := .modify_hole (fun _ => rfl) rfl
  have hlonger : Lengthened r s joined := by
    refine ⟨(Lengthened.of_grows hgrows h.has).grows.trans_same hjoin, ?_⟩
    rw [hget]
    rfl
  obtain ⟨htemplates, htables, hscenarios⟩ := h.lengthened hlonger
  refine ⟨hlonger, hexamples, hlonger.grows.has h.has, htemplates, ?_, ?_⟩
  · rw [hexamples]
    exact forall₂_concat htables (htable.grows hjoin (by simp))
  · rw [show (joined.get r).scenarios = _ from congrArg Outline.scenarios hget]
    exact hscenarios

/-- What a new table of the outline is filled with is what its node says, and its rows become
scenarios. -/
theorem fillTable_unfolded (h : s.Unfolded file templates tables (s.rowsOf (s.get r)) r)
    {table : Ref Examples} (hgrows : Grows anywhere untouched s s')
    (hnew : ¬ s.Has (.examples table)) (htable : s'.Has (.examples table)) {node header : Value}
    {headers : List Value} (hheader : node.field "tableHeader" = .ok header)
    (hheaders : headerCells header = .ok headers) :
    Ensures (fillTable r table node header headers) s' (fun _ => True) fun _ s'' =>
      Lengthened r s s'' ∧
        s''.Unfolded file templates (tables ++ [node]) (s''.rowsOf (s''.get r)) r := by
  unfold fillTable
  rw [ensures_bind_change]
  set s₁ := s'.modify table _ with hs₁
  refine ensures_bind_check trivial fun body hbody => ?_
  rw [ensures_bind_change, ensures_bind_change]
  set s₂ := s₁.modify table _ with hs₂
  have htable₁ : s₁.Has (.examples table) := (has_modify s' table _ _).mpr htable
  have hheads : Grows nowhere (· = .examples table) s' s₁ := .modify_hole (fun _ => rfl) rfl
  have hfills : Grows nowhere (· = .examples table) s₁ s₂ := .modify_hole (fun _ => rfl) rfl
  have hgrows₂ : Grows anywhere untouched s s₂ :=
    (hgrows.trans_new hnew hheads).trans_new hnew hfills
  have htable₂ : s₂.Has (.examples table) := (has_modify s₁ table _ _).mpr htable₁
  obtain ⟨htabulates, hheaders₂, hrows₂⟩ : s₂.Tabulates node table ∧
      (s₂.get table).headers = headers ∧ (s₂.get table).dataRows = body := by
    refine tabulates_filled htable₂ hheader hheaders hbody ?_ ?_ <;>
      rw [hs₂, get_modify_self s₁ table _ htable₁, hs₁, get_modify_self s' table _ htable]
  -- the table joins the outline before its rows are gone through
  obtain ⟨hlonger₃, hexamples₃, hunfolded₃⟩ := addTable_unfolded h hgrows₂ htabulates
  set s₃ := s₂.modify r _
  have hjoin : Grows nowhere (· = .outline r) s₂ s₃ := .modify_hole (fun _ => rfl) rfl
  refine (rows_unfolded hunfolded₃ headers body).weaken (fun _ => id) ?_
  rintro _ s₄ - ⟨hlonger₄, hexamples₄, hunfolded₄⟩
  have hall := hlonger₃.trans hlonger₄
  have hsame : s₄.get table = s₂.get table := by
    rw [hlonger₄.grows.get_examples (hjoin.has htable₂) (by simp),
      hjoin.get_examples htable₂ (by simp)]
  have hrows₄ : s₄.rowsOf (s₄.get r) =
      s.rowsOf (s.get r) ++ body.map fun cells => (headers, cells) := by
    rw [rowsOf_concat (hexamples₄.trans hexamples₃), hsame, hheaders₂, hrows₂]
    intro e he
    obtain ⟨node, -, hnode⟩ := exists_left_of_forall₂ h.tables he
    exact hall.grows.get_examples hnode.has (by simp)
  rw [hrows₄]
  exact ⟨hall, hunfolded₄⟩

/-- **A table that is kept is the next one of its outline, with a scenario for each row.** -/
theorem examples_unfolded (h : s.Unfolded file templates tables (s.rowsOf (s.get r)) r)
    (site : Site) (node : Value) :
    Ensures (Build.examples site r node) s (fun _ => True) fun _ s' => Lengthened r s s' ∧
      s'.Unfolded file templates
        (tables ++ [node].filter fun table => !table.isExcluded site.excluded)
        (s'.rowsOf (s'.get r)) r := by
  refine ensures_examples trivial (fun hpassed => ?_) fun x hkept _ => ?_
  · rw [Value.kept_of_excluded hpassed, List.append_nil]
    exact ⟨.refl r s, h⟩
  rw [Value.kept_of_not_excluded hkept]
  set s₁ := (s.register x).1
  set table := (s.register x).2
  have hnew : ¬ s.Has (.examples table) := not_has_register_self s x
  have hhas₁ : s₁.Has (.examples table) := has_register_self s x
  have hregister : Grows anywhere untouched s s₁ := .register s fun _ => trivial
  refine ensures_bind_check trivial fun tags _ => ?_
  refine .bind_of (declareAll_retags hhas₁ nofun nofun site.file tags) (fun _ _ => trivial) ?_
  rintro _ s₂ hretags -
  refine ensures_bind_check trivial fun header hheader => ?_
  refine ensures_bind_check trivial fun headers hheaders => ?_
  exact fillTable_unfolded h (hregister.trans_new hnew hretags.grows) hnew
    (hretags.grows.has hhas₁) hheader hheaders

theorem tables_unfolded (h : s.Unfolded file templates tables (s.rowsOf (s.get r)) r)
    (site : Site) (nodes : List Value) :
    Ensures (nodes.forM (Build.examples site r)) s (fun _ => True) fun _ s' => Lengthened r s s' ∧
      s'.Unfolded file templates
        (tables ++ nodes.filter fun table => !table.isExcluded site.excluded)
        (s'.rowsOf (s'.get r)) r := by
  refine .forM (I := fun _ => True) (fun done s' => Lengthened r s s' ∧ s'.Unfolded file templates
    (tables ++ done.filter fun table => !table.isExcluded site.excluded)
    (s'.rowsOf (s'.get r)) r) trivial ⟨.refl r s, by simpa using h⟩ ?_
  rintro done node _ s₁ - - ⟨hlonger, hdone⟩
  refine (examples_unfolded hdone site node).weaken (fun _ => id) ?_
  rintro _ s₂ - ⟨hnext, hunfolded⟩
  rw [List.filter_append, ← List.append_assoc]
  exact ⟨hlonger.trans hnext, hunfolded⟩

end Build

end StepTrace
