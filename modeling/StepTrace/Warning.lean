import StepTrace.Fault

/-!
# Warnings

What went wrong without stopping the operation.
-/

namespace StepTrace

/-- Something that an operation passed over. -/
inductive Warning where
  /-- A pattern names a constant that is not defined. -/
  | unresolvedConstant (name : String)
  /-- The constants of a pattern still name constants after the last round. -/
  | unsettledPattern (pattern : String)
  /-- A transform with an unknown keyword, which is registered all the same. -/
  | unknownTransform (keyword source : String)
  /-- A pattern that is not well formed. -/
  | malformedPattern (pattern : String)
  /-- A feature whose steps could not be linked. -/
  | unlinkedFeature (name : String) (fault : Fault)
  /-- A feature file that could not be read. -/
  | unreadFile (path : String) (fault : Fault)
  /-- A feature file whose document could not be built. -/
  | unbuiltFile (file : String) (fault : Fault)
  /-- A manifest that does not exist. -/
  | missingManifest (path : String)
deriving Inhabited

/-- The text of a warning, given how a fault is described; `malformed` is the description of a
pattern that is not well formed. -/
def Warning.message (describe : Fault → String) (malformed : String) : Warning → String
  | unresolvedConstant name => s!"Could not resolve interpolated constant [{name}]"
  | unsettledPattern pattern => s!"Interpolation in pattern did not settle: {pattern}"
  | unknownTransform keyword source =>
    "Unknown transform keyword " ++ Text.quoted keyword ++ " in " ++ source
  | malformedPattern pattern =>
    "Invalid regex in step pattern " ++ Text.quoted pattern ++ ": " ++ malformed
  | unlinkedFeature name fault =>
    "Failed to link steps for feature '" ++ name ++ "': " ++ describe fault
  | unreadFile path fault => s!"Failed to parse {path}: " ++ describe fault
  | unbuiltFile file fault => s!"Failed to build {file}: " ++ describe fault
  | missingManifest path => s!"Definitions file not found: {path}"

end StepTrace
