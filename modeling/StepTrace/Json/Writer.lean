import StepTrace.Value.Display

/-!
# Writing JSON

A value is written as a JSON text in ASCII: other characters are written as escapes, those beyond
the first 65536 as a pair.  An indented text has one item or field a line; empty lists and objects
stay on one line.

Main definition: `Json.write`.
-/

namespace StepTrace.Json

open Numeral Text

/-! ## Strings -/

/-- An escape of a sixteen-bit unit. -/
def unitEscape (n : Nat) : List Char :=
  '\\' :: 'u' :: hexDigits 4 n

/-- One character inside a string. -/
def writeChar (c : Char) : List Char :=
  if c = '"' then ['\\', '"']
  else if c = '\\' then ['\\', '\\']
  else if c = '\n' then ['\\', 'n']
  else if c = '\r' then ['\\', 'r']
  else if c = '\t' then ['\\', 't']
  else if c = '\x0c' then ['\\', 'f']
  else if c = '\x08' then ['\\', 'b']
  else if 32 ≤ c.toNat ∧ c.toNat < 127 then [c]
  else if c.toNat < 0x10000 then unitEscape c.toNat
  else
    let n := c.toNat - 0x10000
    unitEscape (0xD800 + n / 0x400) ++ unitEscape (0xDC00 + n % 0x400)

/-- A text as a JSON string. -/
def writeString (s : String) : String :=
  String.ofList ('"' :: s.toList.flatMap writeChar ++ ['"'])

/-! ## Layout -/

/-- How the items of lists and objects are set apart. -/
inductive Layout where
  /-- On one line. -/
  | compact
  /-- Each on a line of its own, moved in by so many blanks for each list or object around it. -/
  | indented (width : Nat)
deriving DecidableEq, Repr, Inhabited

namespace Layout

/-- What separates two items. -/
def separator : Layout → String
  | compact => ", "
  | indented _ => ","

/-- What stands before an item, or before the closing bracket, at a depth. -/
def lineBreak (layout : Layout) (depth : Nat) : String :=
  match layout with
  | compact => ""
  | indented width => String.ofList ('\n' :: List.replicate (width * depth) ' ')

/-- The written items between brackets. -/
def enclose (layout : Layout) (opening closing : String) (depth : Nat) (items : List String) :
    String :=
  if items.isEmpty then opening ++ closing
  else
    let first := layout.lineBreak (depth + 1)
    opening ++ first ++ String.intercalate (layout.separator ++ first) items
      ++ layout.lineBreak depth ++ closing

end Layout

/-- Floating-point numbers are written as they are displayed, with names for the infinite ones. -/
def floatStyle : FloatStyle :=
  { FloatStyle.plain with infinity := "Infinity", nan := "NaN" }

/-- The key of a field; keys that are no text are displayed. -/
def writeKey : Value → String
  | .text s => writeString s
  | .bool b => writeString (if b then "true" else "false")
  | .null => writeString "null"
  | .float x => writeString (x.render floatStyle)
  | v => writeString v.display

mutual

/-- A value at a depth.  A date is written as its text, and null stands for what contains itself
where it comes again. -/
def writeAt (layout : Layout) (depth : Nat) : Value → String
  | .null => "null"
  | .bool b => if b then "true" else "false"
  | .int n => toString n
  | .float x => x.render floatStyle
  | .moment m => writeString m.text
  | .text s => writeString s
  | .knot _ body => writeAt layout depth body
  | .again _ _ => "null"
  | .list items => layout.enclose "[" "]" depth (writeItems layout (depth + 1) items)
  | .map fields => layout.enclose "\x7b" "\x7d" depth (writeFields layout (depth + 1) fields)

def writeItems (layout : Layout) (depth : Nat) : List Value → List String
  | [] => []
  | v :: vs => writeAt layout depth v :: writeItems layout depth vs

def writeFields (layout : Layout) (depth : Nat) : List (Value × Value) → List String
  | [] => []
  | (key, v) :: fields =>
    (writeKey key ++ ": " ++ writeAt layout depth v) :: writeFields layout depth fields

end

/-- A value as a JSON text. -/
def write (layout : Layout) (v : Value) : String :=
  writeAt layout 0 v

end StepTrace.Json
