import StepTrace.Assembly.Feature
import StepTrace.Gherkin.Document

/-!
# What builders find in a document that was read

The builders take nothing for granted, and may be given any value.  A feature text gives values of
one form only: whatever is asked of a node is there, and of the type that is wanted.  So no look
into a document that was read is refused (`Yields`).

That its texts are texts matters once more for a step that is a template, because only texts can be
filled in (`Step.Written`, `explodeRow_yields`).
-/

namespace StepTrace

open Gherkin

/-- It is not refused, and the result is of that kind. -/
def Yields {α : Type} (result : Except Fault α) (P : α → Prop) : Prop :=
  ∃ a, result = .ok a ∧ P a

namespace Yields

variable {α β : Type} {P : α → Prop} {Q : β → Prop} {result : Except Fault α}

theorem pure {a : α} (h : P a) : Yields (Pure.pure a) P :=
  ⟨a, rfl, h⟩

theorem bind {f : α → Except Fault β} (h : Yields result P) (hf : ∀ a, P a → Yields (f a) Q) :
    Yields (result >>= f) Q := by
  obtain ⟨a, rfl, ha⟩ := h
  exact hf a ha

/-- What is read at once is known. -/
theorem bind_of_eq {f : α → Except Fault β} {a : α} (h : result = .ok a) (hf : Yields (f a) Q) :
    Yields (result >>= f) Q := by
  rw [h]
  exact hf

theorem weaken {P' : α → Prop} (h : Yields result P) (hP : ∀ a, P a → P' a) : Yields result P' := by
  obtain ⟨a, hresult, ha⟩ := h
  exact ⟨a, hresult, hP a ha⟩

theorem mapM {f : α → Except Fault β} {xs : List α} (h : ∀ x ∈ xs, Yields (f x) Q) :
    Yields (xs.mapM f) fun ys => ∀ y ∈ ys, Q y := by
  induction xs with
  | nil => exact pure nofun
  | cons x xs ih =>
      rw [List.mapM_cons]
      refine bind (h x (List.mem_cons_self ..)) fun y hy => ?_
      refine bind (ih fun x hx => h x (List.mem_cons_of_mem _ hx)) fun ys hys => pure ?_
      exact List.forall_mem_cons.mpr ⟨hy, hys⟩

end Yields

theorem mapM_eq_map {α β : Type} {f : α → Except Fault β} {g : α → β} {xs : List α}
    (h : ∀ x ∈ xs, f x = .ok (g x)) : xs.mapM f = .ok (xs.map g) := by
  induction xs with
  | nil => rfl
  | cons x xs ih =>
      obtain ⟨hx, hxs⟩ := List.forall_mem_cons.mp h
      rw [List.mapM_cons, hx, ih hxs]
      rfl

/-- The value is a text. -/
def Value.Textual (v : Value) : Prop :=
  ∃ s, v = .text s

theorem Value.textual (s : String) : (Value.text s).Textual :=
  ⟨s, rfl⟩

/-! ## Lists of nodes -/

namespace Gherkin

theorem mapM_map_eq {α β : Type} (f : Value → Except Fault β) {node : α → Value} {g : α → β}
    (h : ∀ x, f (node x) = .ok (g x)) (xs : List α) : (xs.map node).mapM f = .ok (xs.map g) := by
  rw [List.mapM_map]
  exact mapM_eq_map fun x _ => h x

theorem elementsOf_list {v : Value} {key : String} {items : List Value}
    (h : v.field key = .ok (.list items)) : v.elementsOf key = .ok items := by
  rw [Value.elementsOf, h]
  cases items <;> rfl

theorem rowCells_rowValue (cells : List String) :
    rowCells (rowValue cells) = .ok (cells.map .text) := by
  have hcells : (rowValue cells).elementsOf "cells" =
      .ok (cells.map fun cell => .ofFields [("value", .text cell)]) := elementsOf_list rfl
  have hvalue : ∀ cell, (Value.ofFields [("value", .text cell)]).field "value" (.text "") =
      .ok (.text cell) := fun _ => rfl
  rw [rowCells, hcells]
  exact mapM_map_eq (fun cell => cell.field "value" (.text "")) hvalue cells

theorem declaresExcluded_yields (excluded : List String) (tags : List TagNode) :
    Yields (declaresExcluded excluded (.list (tags.map TagNode.toValue))) fun _ => True := by
  have hname : ∀ tag : TagNode, tagNodeName tag.toValue = .ok tag.name := fun _ => rfl
  unfold declaresExcluded
  split
  · exact .pure trivial
  · exact .bind_of_eq rfl (.bind_of_eq (mapM_map_eq tagNodeName hname tags) (.pure trivial))

theorem commentsOf_yields (d : Document) : Yields (Build.commentsOf d.toValue) fun _ => True := by
  have hfield : d.toValue.field "comments" = .ok (.list (d.comments.map CommentNode.toValue)) := by
    cases hfeature : d.feature <;> simp only [Document.toValue, hfeature] <;> rfl
  have htexts : (d.comments.map CommentNode.toValue).mapM (fun comment => comment.require "text") =
      .ok ((d.comments.map CommentNode.text).map .text) := by
    rw [List.map_map]
    exact mapM_map_eq (fun comment => comment.require "text") (fun _ => rfl) d.comments
  have hwords : ((d.comments.map CommentNode.text).map .text).mapM Value.toText =
      .ok ((d.comments.map CommentNode.text).map id) := mapM_map_eq Value.toText (fun _ => rfl) _
  exact .bind_of_eq (elementsOf_list hfield)
    (.bind_of_eq htexts (.bind_of_eq hwords (.pure trivial)))

end Gherkin

/-! ## Steps -/

/-- All that can be filled in is text. -/
structure Step.Written (x : Step) : Prop where
  text : x.text.Textual
  docString : ∀ v ∈ x.docString, v.Textual
  table : ∀ rows ∈ x.table, ∀ cells ∈ rows, ∀ v ∈ cells, v.Textual

namespace Gherkin

theorem StepNode.field_docString (n : StepNode) : n.toValue.field "docString" =
    .ok ((n.docString.map fun lines =>
      .ofFields [("content", .text (String.intercalate "\n" lines))]).getD .null) := by
  by_cases hrows : n.rows = []
  all_goals
    simp only [StepNode.toValue, tableField, hrows]
    cases n.docString <;> rfl

theorem StepNode.field_dataTable (n : StepNode) : n.toValue.field "dataTable" =
    .ok (if n.rows = [] then .null else .ofFields [("rows", .list (n.rows.map rowValue))]) := by
  by_cases hrows : n.rows = []
  · simp only [StepNode.toValue, tableField, hrows]
    cases n.docString <;> rfl
  · simp only [StepNode.toValue, tableField, hrows]
    rfl

/-- **A step is built as it was read.** -/
theorem stepOf_toValue (n : StepNode) (id owner file : String) :
    stepOf n.toValue id owner file = .ok {
      id
      keyword := .text n.keyword
      text := .text n.text
      location := ⟨file, n.line⟩
      scenarioId := owner
      docString := n.docString.map fun lines => .text (String.intercalate "\n" lines)
      table := if n.rows = [] then none else some (n.rows.map (·.map .text)) } := by
  have hkeyword : n.toValue.require "keyword" = .ok (.text n.keyword) := rfl
  have htext : n.toValue.require "text" = .ok (.text n.text) := rfl
  have hlocation : locationOf n.toValue file = .ok ⟨file, n.line⟩ := rfl
  rw [stepOf, hkeyword, htext, hlocation, n.field_docString, n.field_dataTable]
  by_cases hrows : n.rows = []
  · rw [if_pos hrows, if_pos hrows]
    cases n.docString <;> rfl
  · rw [if_neg hrows, if_neg hrows]
    have hdata : (Value.ofFields [("rows", .list (n.rows.map rowValue))]).elementsOf "rows" =
        .ok (n.rows.map rowValue) := elementsOf_list rfl
    have hcells : (n.rows.map rowValue).mapM rowCells = .ok (n.rows.map (·.map .text)) :=
      mapM_map_eq rowCells rowCells_rowValue n.rows
    cases n.docString
    all_goals
      have hpresent : (Value.ofFields [("rows", .list (n.rows.map rowValue))]).isPresent = true := rfl
      simp only [bind, Except.bind, hpresent, if_true, hdata, hcells]
      rfl

/-- All that can be filled in is text. -/
theorem written_of_stepOf {n : StepNode} {id owner file : String} {x : Step}
    (h : stepOf n.toValue id owner file = .ok x) : x.Written := by
  rw [stepOf_toValue] at h
  cases h
  refine ⟨Value.textual _, fun v hv => ?_, fun rows htable cells hcells v hv => ?_⟩
  · obtain ⟨lines, -, rfl⟩ := Option.map_eq_some_iff.mp hv
    exact Value.textual _
  · by_cases hrows : n.rows = []
    · rw [if_pos hrows] at htable
      cases htable
    · rw [if_neg hrows] at htable
      cases htable
      obtain ⟨row, -, rfl⟩ := List.mem_map.mp hcells
      obtain ⟨text, -, rfl⟩ := List.mem_map.mp hv
      exact Value.textual _

end Gherkin

/-! ## Rows of an outline -/

theorem Outline.fillValue_yields {v : Value} (hv : v.Textual) {headers row : List Value}
    (hrow : ∀ cell ∈ row, cell.Textual) : Yields (fillValue v headers row) Value.Textual := by
  induction headers generalizing v row with
  | nil => exact .pure hv
  | cons header headers ih =>
      obtain ⟨s, rfl⟩ := hv
      cases row with
      | nil => exact ih (Value.textual _) nofun
      | cons cell row =>
          obtain ⟨⟨text, rfl⟩, hrest⟩ := List.forall_mem_cons.mp hrow
          exact ih (Value.textual _) hrest

theorem Outline.copyStep_yields {x : Step} (hx : x.Written) (id owner : String)
    {headers row : List Value} (hrow : ∀ cell ∈ row, cell.Textual) :
    Yields (copyStep x id owner headers row) fun _ => True := by
  have hfill {v : Value} (hv : v.Textual) : Yields (fillValue v headers row) Value.Textual :=
    fillValue_yields hv hrow
  have hdocString : Yields (x.docString.mapM fun v => fillValue v headers row) fun _ => True := by
    cases hdoc : x.docString with
    | none => exact .pure trivial
    | some v => exact (hfill (hx.docString v hdoc)).bind fun _ _ => .pure trivial
  have htable : Yields (x.table.mapM fun rows => rows.mapM fun cells => cells.mapM fun v =>
      fillValue v headers row) fun _ => True := by
    cases hrows : x.table with
    | none => exact .pure trivial
    | some rows =>
        have hcells := hx.table rows hrows
        have hmapped := Yields.mapM fun cells (hmem : cells ∈ rows) =>
          Yields.mapM fun v (hv : v ∈ cells) => hfill (hcells cells hmem v hv)
        exact hmapped.bind fun _ _ => .pure trivial
  refine hdocString.bind fun docString _ => htable.bind fun table _ => ?_
  exact (hfill hx.text).bind fun text _ => .pure trivial

theorem Outline.copySteps_yields (owner : String) {headers row : List Value}
    (hrow : ∀ cell ∈ row, cell.Textual) (position : Nat) {templates : List Step}
    (htemplates : ∀ x ∈ templates, x.Written) :
    Yields (copySteps owner headers row position templates) fun _ => True := by
  induction templates generalizing position with
  | nil => exact .pure trivial
  | cons x templates ih =>
      obtain ⟨hx, hrest⟩ := List.forall_mem_cons.mp htemplates
      refine (copyStep_yields hx _ owner hrow).bind fun copy _ => ?_
      exact (ih (position + 1) hrest).bind fun _ _ => .pure trivial

/-- **A row whose cells are texts can be filled into templates that are written.** -/
theorem Outline.explodeRow_yields (o : Outline) {templates : List Step} {row : List Value}
    (headers : List Value) (htemplates : ∀ x ∈ templates, x.Written)
    (hrow : ∀ cell ∈ row, cell.Textual) :
    Yields (o.explodeRow templates headers row) fun _ => True :=
  (copySteps_yields _ hrow 1 htemplates).bind fun _ _ => .pure trivial

end StepTrace
