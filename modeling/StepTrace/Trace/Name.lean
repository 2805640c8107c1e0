import StepTrace.Files.Path

/-!
# Names derived from names

The identifiers and display names that follow from what stands in a document: the name of a tag
without its sigil, the identifier of a tag, and the display name of a feature file.
-/

namespace StepTrace

/-- The token without one leading sigil. -/
def stripSigil (token : String) : String :=
  match token.toList with
  | '@' :: rest => String.ofList rest
  | _ => token

/-- The identifier of the tag that a token names. -/
def tagId (token : String) : String :=
  "tag:" ++ token

/-- The ending of the name of a feature file. -/
def featureSuffix : String := "feature"

/-- The display name of a feature: the name of its file without `.feature`, dots written as
underscores. -/
def featureName (file : String) : String :=
  Text.replace "." "_" (Text.replace ".feature" "" (Path.ofString file).name)

end StepTrace
