import StepTrace.Regex.Reader
import StepTrace.Text.Substring
import StepTrace.Warning

/-!
# Patterns of definitions

The pattern of a definition or transform is the text of a regular expression, with blanks around it
and one pair of slashes allowed.  What is no text has no pattern; a text that is not well formed has
none either, and there is a warning.
-/

namespace StepTrace.Linking

open Text

/-- The text of the regular expression: without the blanks around it, and without the first and
the last character if it begins with a slash and ends with one. -/
def cleanPattern (s : List Char) : List Char :=
  let s := trim s
  if ['/'].isPrefixOf s && ['/'].isSuffixOf s then (s.drop 1).dropLast else s

/-- The fault that a refused pattern is, unless it is merely malformed. -/
def faultOf? : Regex.Refusal → Option Fault
  | .malformed => none
  | .repetitionTooLarge => some .repetitionTooLarge
  | .conflictingFlags => some .conflictingFlags

/-- What a stored pattern can be searched with, if anything, and the warnings about it. -/
def readPattern (v : Value) : Except Fault (Option Regex × List Warning) :=
  match v with
  | .text s =>
    match Regex.read (String.ofList (cleanPattern s.toList)) with
    | .ok regex => .ok (some regex, [])
    | .error refusal =>
      match faultOf? refusal with
      | some fault => .error fault
      | none => .ok (none, [.malformedPattern s])
  | _ => .ok (none, [])

end StepTrace.Linking
