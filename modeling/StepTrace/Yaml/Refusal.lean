/-!
# Why a YAML text was refused

A text is refused as a whole: because it is not one well-formed document, or because a scalar in it
is not what its form or its tag says that it is.
-/

namespace StepTrace.Yaml

/-- Why a scalar has no value. -/
inductive ScalarFault where
  /-- A numeral has no digits, or characters that are no digits. -/
  | badNumeral
  /-- There is nothing where a numeral is wanted. -/
  | noNumeral
  /-- A number is beyond the range of its type. -/
  | tooLarge
  /-- A word is none of those for true and false. -/
  | noTruthValue (word : String)
  /-- A scalar is not written as a date. -/
  | notMoment
  /-- There is no such day, or no such time of day. -/
  | noSuchMoment
  /-- There is no character of that number. -/
  | noSuchCharacter
deriving DecidableEq, Repr, Inhabited

/-- A description of the fault. -/
def ScalarFault.description : ScalarFault → String
  | badNumeral => "a numeral is malformed"
  | noNumeral => "a numeral is empty"
  | tooLarge => "a number is too large"
  | noTruthValue _ => "a word is neither true nor false"
  | notMoment => "a scalar is not written as a date"
  | noSuchMoment => "there is no such date"
  | noSuchCharacter => "there is no such character"

/-- Why a text was refused. -/
inductive Refusal where
  /-- The text is not one well-formed document of known tags. -/
  | malformed
  | scalar (fault : ScalarFault)
deriving DecidableEq, Repr, Inhabited

/-- The result of a step that can only fail on a malformed text. -/
def wellFormed {α : Type} : Option α → Except Refusal α
  | some a => .ok a
  | none => .error .malformed

end StepTrace.Yaml
