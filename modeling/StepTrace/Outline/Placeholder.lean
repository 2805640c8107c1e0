import StepTrace.Value.Access
import StepTrace.Text.Substring

/-!
# Placeholders

A step of an outline may hold placeholders, a column header in angle brackets.  For one row of an
examples table the placeholders are filled in column by column: each column in turn replaces its
placeholder everywhere in the text that the columns before it have left.
-/

namespace StepTrace.Outline

open Text

/-- The placeholder of a column. -/
def placeholder (header : List Char) : List Char :=
  '<' :: header ++ ['>']

/-- The text with the placeholders of the headers filled in from the row; cells that are missing
are empty. -/
def fill (text : List Char) : (headers row : List (List Char)) → List Char
  | [], _ => text
  | header :: headers, row =>
    fill (replaceAll (placeholder header) (row.head?.getD []) text) headers row.tail

/-- The value with the placeholders of the headers filled in.  With a header to fill in, the value
and the cell that is put in have to be texts. -/
def fillValue (v : Value) : (headers row : List Value) → Except Fault Value
  | [], _ => .ok v
  | header :: headers, row =>
    match v, row.head?.getD (.text "") with
    | .text s, .text cell =>
      fillValue (.text (String.ofList
        (replaceAll (placeholder header.display.toList) cell.toList s.toList))) headers row.tail
    | .text _, _ => .error .wrongType
    | _, _ => .error .missingField

/-- On texts, filling in values is filling in characters. -/
theorem fillValue_text (s : String) (headers row : List String) :
    fillValue (.text s) (headers.map .text) (row.map .text) =
      .ok (.text (String.ofList (fill s.toList (headers.map String.toList)
        (row.map String.toList)))) := by
  induction headers generalizing s row with
  | nil => simp [fillValue, fill]
  | cons header headers ih =>
    cases row with
    | nil =>
      have := ih (String.ofList (replaceAll (placeholder header.toList) [] s.toList)) []
      simpa [fillValue, fill] using this
    | cons cell row =>
      have := ih (String.ofList
        (replaceAll (placeholder header.toList) cell.toList s.toList)) row
      simpa [fillValue, fill] using this

end StepTrace.Outline
