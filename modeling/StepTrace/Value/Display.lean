import StepTrace.Value.Basic
import StepTrace.Numeral.Shortest
import StepTrace.Text.Quoted

/-!
# Values shown as text

A value that stands where text is wanted is shown by its `display`: a text or a date as it is,
everything else as it is shown inside a list or a mapping.  Inside those, and in messages, texts are
quoted and dates are shown by their parts.  Where a value contains itself, three dots stand for the
inner one.
-/

namespace StepTrace.Value

open Numeral Text

/-- What stands for a list or mapping inside itself. -/
def dots (isMapping : Bool) : String :=
  if isMapping then "\x7b...\x7d" else "[...]"

mutual

/-- The value as it is shown inside the knots of the given labels. -/
def shownInside (labels : List Nat) : Value → String
  | null => "None"
  | bool b => if b then "True" else "False"
  | int n => toString n
  | float x => x.render .plain
  | moment m => m.shown
  | text s => quoted s
  | list items => "[" ++ String.intercalate ", " (shownItems labels items) ++ "]"
  | map fields => "\x7b" ++ String.intercalate ", " (shownFields labels fields) ++ "\x7d"
  | knot label body =>
    if label ∈ labels then dots body.isMap else body.shownInside (label :: labels)
  | again _ isMapping => dots isMapping

def shownItems (labels : List Nat) : List Value → List String
  | [] => []
  | v :: vs => v.shownInside labels :: shownItems labels vs

def shownFields (labels : List Nat) : List (Value × Value) → List String
  | [] => []
  | (key, v) :: fields =>
    (key.shownInside labels ++ ": " ++ v.shownInside labels) :: shownFields labels fields

end

/-- The value as it is shown in a message: texts quoted, lists in brackets, mappings in braces. -/
def shown (v : Value) : String :=
  v.shownInside []

/-- The value as text: a text is its own display. -/
def display : Value → String
  | text s => s
  | moment m => m.text
  | v => v.shown

@[simp] theorem display_text (s : String) : (text s).display = s := rfl

end StepTrace.Value
