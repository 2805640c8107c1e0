import StepTrace.Numeral.Binary64
import StepTrace.Value.Moment

/-!
# Document values

Documents, manifests and settings are read into values of one type before anything is built from
them: nothing is assumed about what stands where, so that a malformed document is refused at the
place, and for the reason, that the builder meets first.

A manifest can hold lists and mappings that contain themselves.  Such a value is written as a knot:
a label and a body, inside which the label stands for the whole.  Looking into a knot puts the whole
in the place of the label, so that one can look as deep as one likes.
-/

namespace StepTrace

open Numeral

/-- A value of a document: a scalar, a list, or a mapping in the order in which it was written. -/
inductive Value where
  | null
  | bool (b : Bool)
  | int (n : Int)
  | float (x : Binary64)
  | moment (m : Moment)
  | text (s : String)
  | list (items : List Value)
  | map (fields : List (Value × Value))
  /-- A list or mapping that contains itself, by its label. -/
  | knot (label : Nat) (body : Value)
  /-- The knot of that label, which is a mapping or else a list. -/
  | again (label : Nat) (isMapping : Bool)
deriving Repr, Inhabited

namespace Value

/-- Is the value this text? -/
def isText (s : String) : Value → Bool
  | text t => t == s
  | _ => false

theorem isText_iff {s : String} {v : Value} : v.isText s = true ↔ v = .text s := by
  cases v <;> simp [isText]

/-- A value counts as present unless it is null, false, zero, or empty. -/
def isPresent : Value → Bool
  | null => false
  | bool b => b
  | int n => n != 0
  | float x => !x.isZero
  | moment _ => true
  | text s => s != ""
  | list items => !items.isEmpty
  | map fields => !fields.isEmpty
  | knot _ body => body.isPresent
  | again _ _ => true

/-- The value, or `other` in place of a value that does not count as present. -/
def orElse (v other : Value) : Value :=
  if v.isPresent then v else other

/-- A value other than null. -/
def nonNull? : Value → Option Value
  | null => none
  | v => some v

/-! ## Knots -/

mutual

/-- The value with `whole` in the place of the label. -/
def tie (label : Nat) (whole : Value) : Value → Value
  | again l isMapping => if l = label then whole else again l isMapping
  | knot l body => if l = label then knot l body else knot l (tie label whole body)
  | list items => list (tieItems label whole items)
  | map fields => map (tieFields label whole fields)
  | v => v

def tieItems (label : Nat) (whole : Value) : List Value → List Value
  | [] => []
  | v :: vs => tie label whole v :: tieItems label whole vs

def tieFields (label : Nat) (whole : Value) : List (Value × Value) → List (Value × Value)
  | [] => []
  | (key, v) :: fields => (key, tie label whole v) :: tieFields label whole fields

end

/-- The value with its outermost knot looked into. -/
def untied : Value → Value
  | knot label body => tie label (knot label body) body
  | v => v

/-! ## Parts -/

/-- The first field under the key, among fields. -/
def findField? (key : String) (fields : List (Value × Value)) : Option Value :=
  (fields.find? fun field => field.1.isText key).map (·.2)

/-- The first field under the key, if the value is a mapping that has one. -/
def lookup? (key : String) : Value → Option Value
  | map fields => findField? key fields
  | knot label body =>
    match untied (knot label body) with
    | map fields => findField? key fields
    | _ => none
  | _ => none

/-- The items of a list. -/
def items? : Value → Option (List Value)
  | list items => some items
  | knot label body =>
    match untied (knot label body) with
    | list items => some items
    | _ => none
  | _ => none

/-- Is the value a mapping? -/
def isMap : Value → Bool
  | map _ => true
  | knot _ body => body.isMap
  | _ => false

/-- A mapping with the given text keys. -/
def ofFields (fields : List (String × Value)) : Value :=
  map (fields.map fun (key, v) => (text key, v))

end Value

end StepTrace
