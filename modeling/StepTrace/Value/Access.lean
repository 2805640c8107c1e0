import StepTrace.Fault
import StepTrace.Numeral.Integer

/-!
# Reading fields of unchecked values

The ways in which a builder takes a value apart, each with the fault that it meets on a value of
another shape.
-/

namespace StepTrace.Value

open Numeral

/-- The field under the key, `default` if the mapping has none. -/
def field (v : Value) (key : String) (default : Value := .null) : Except Fault Value :=
  match v with
  | map _ => .ok ((v.lookup? key).getD default)
  | _ => .error .missingField

/-- The field under the key, which has to be there. -/
def require (v : Value) (key : String) : Except Fault Value :=
  match v with
  | map _ =>
    match v.lookup? key with
    | some found => .ok found
    | none => .error (.missingKey key)
  | _ => .error .wrongType

/-- The elements of a value: the items of a list, the keys of a mapping, the characters of a
text. -/
def elements : Value → Except Fault (List Value)
  | list items => .ok items
  | map fields => .ok (fields.map (·.1))
  | text s => .ok (s.toList.map fun c => text (String.singleton c))
  | _ => .error .wrongType

/-- The elements of a field; a field that does not count as present has none. -/
def elementsOf (v : Value) (key : String) : Except Fault (List Value) := do
  ((← v.field key).orElse (.list [])).elements

/-- The integer that a value stands for: fractions are cut off, numerals are read. -/
def toInteger : Value → Except Fault Int
  | int n => .ok n
  | bool b => .ok (if b then 1 else 0)
  | float x =>
    match x.truncate? with
    | some n => .ok n
    | none => .error (if x = .nan then .notInteger else .infiniteNumber)
  | text s =>
    match readInteger? s.toList with
    | some n => .ok n
    | none => .error .notInteger
  | _ => .error .wrongType

/-- The text that a value is. -/
def toText : Value → Except Fault String
  | text s => .ok s
  | _ => .error .wrongType

end StepTrace.Value
