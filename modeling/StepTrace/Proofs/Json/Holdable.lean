import StepTrace.Json.Reader

/-!
# What a JSON text can hold

Reading gives null, truth values, numbers and texts, and lists and objects of such; the keys of an
object are texts.  Dates and values that contain themselves are never read from JSON.

What is read so far is passed along in reverse, so the statement about lists and objects is one
about whatever was read before (`holdable_of_readValue?`).
-/

namespace StepTrace.Json

open Numeral

/-- A value that a JSON text can hold. -/
inductive Holdable : Value → Prop
  | null : Holdable .null
  | bool (b : Bool) : Holdable (.bool b)
  | int (n : Int) : Holdable (.int n)
  | float (x : Binary64) : Holdable (.float x)
  | text (s : String) : Holdable (.text s)
  | list {items : List Value} (hitems : ∀ v ∈ items, Holdable v) : Holdable (.list items)
  | map {fields : List (Value × Value)} (hkeys : ∀ field ∈ fields, ∃ key, field.1 = .text key)
      (hvalues : ∀ field ∈ fields, Holdable field.2) : Holdable (.map fields)

variable {v : Value} {s rest : List Char}

/-! ## Parts -/

/-- What is found in an object was read as well. -/
theorem Holdable.lookup? (h : Holdable v) {key : String} {found : Value}
    (hfound : v.lookup? key = some found) : Holdable found := by
  cases h with
  | map hkeys hvalues =>
      obtain ⟨field, hfield, rfl⟩ := Option.map_eq_some_iff.mp hfound
      exact hvalues field (List.mem_of_find?_eq_some hfield)
  | _ => cases hfound

/-- Something is found in objects only. -/
theorem Holdable.isMap_of_lookup? (h : Holdable v) {key : String} {found : Value}
    (hfound : v.lookup? key = some found) : v.isMap = true := by
  cases h with
  | map => rfl
  | _ => cases hfound

/-- Fields as they are read: keys are texts, values can be held. -/
def HoldableFields (fields : List (Value × Value)) : Prop :=
  ∀ field ∈ fields, (∃ key, field.1 = .text key) ∧ Holdable field.2

theorem HoldableFields.nil : HoldableFields [] :=
  nofun

theorem HoldableFields.addField {fields : List (Value × Value)} (h : HoldableFields fields)
    (key : String) (hv : Holdable v) : HoldableFields (addField key v fields) := by
  unfold Json.addField
  split
  · intro field hfield
    obtain ⟨old, hold, rfl⟩ := List.mem_map.mp hfield
    split
    · exact ⟨(h old hold).1, hv⟩
    · exact h old hold
  · intro field hfield
    rcases List.mem_cons.mp hfield with rfl | hfield
    · exact ⟨⟨key, rfl⟩, hv⟩
    · exact h field hfield

end StepTrace.Json
