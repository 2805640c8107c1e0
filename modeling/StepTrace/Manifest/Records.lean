import StepTrace.Manifest.Constant
import StepTrace.Trace.Job
import StepTrace.Value.Access

/-!
# Manifests

A manifest lists step definitions and transforms, with the constants that their patterns name.  Its
records are registered in order; a fault ends the reading, and the records before it stay
registered.  Definitions come first: the list of transforms is looked at when all definitions are
registered.

Main definition: `Manifest.register`.
-/

namespace StepTrace.Manifest

/-- The keywords that a transform may have. -/
def transformKeywords : List String := ["Transform", "ParameterType"]

/-- The keywords of step definitions, unless a project says otherwise. -/
def defaultStepKeywords : List String := ["Given", "When", "Then", "And", "But"]

/-- The keys of the two lists of records. -/
def definitionsKey : String := "step_definitions"

def transformsKey : String := "transforms"

/-- A field of a record. -/
def entryField (entry : Value) (key : String) (default : Value) : Value :=
  (entry.lookup? key).getD default

/-- The records under a key, all of which have to be mappings. -/
def records (data : Value) (key source : String) : Except ManifestFault (List Value) :=
  match ((entryField data key .null).orElse (.list [])).items? with
  | some entries =>
    if entries.all Value.isMap then .ok entries else .error (.recordNotMapping key source)
  | none => .error (.recordsNotList key source)

/-- The constants of a manifest. -/
def constants (data : Value) (source : String) : Except ManifestFault Constants :=
  let found := (entryField data "constants" .null).orElse (.map [])
  if found.isMap then .ok (.ofValue found) else .error (.constantsNotMapping source)

/-- The pattern of a record as it is written. -/
def writtenPattern (entry : Value) (source : String) : Except ManifestFault String :=
  match entry.lookup? "pattern" with
  | some v => .ok v.display
  | none => .error (.missingPattern source entry)

/-- The result of a check of the manifest. -/
def check {α : Type} (result : Except ManifestFault α) : Job α :=
  match result with
  | .ok a => return a
  | .error fault => throw (.manifest fault)

/-- The pattern of a record with its constants put in. -/
def patternOf (constants : Constants) (entry : Value) (source : String) : Job Value := do
  let (pattern, warnings) := substituteConstants constants (← check (writtenPattern entry source))
  Job.warn warnings
  return .text pattern

/-- The identifier of a record: the one that it gives itself, or a numbered one. -/
def recordId (entry : Value) (stem : String) (count : Nat) : String :=
  ((entryField entry "id" .null).orElse (.text (stem ++ toString (count + 1)))).display

/-- The keyword of a definition record. -/
def definitionKeyword (entry : Value) : String :=
  (entryField entry "keyword" (.text "")).display

/-- Registers a step definition. -/
def registerDefinition (constants : Constants) (source : String) (entry : Value) :
    Job (Ref Definition) := do
  let id := recordId entry "step_definition" ((← Job.store).catalog.count .definition)
  let pattern ← patternOf constants entry source
  Job.build (Build.register {
    id
    keyword := definitionKeyword entry
    pattern
    source := (entryField entry "source" (.text "")).display
    pending := (entryField entry "pending" (.bool false)).isPresent : Definition })

/-- Registers a transform; an unknown keyword is only warned about. -/
def registerTransform (constants : Constants) (source : String) (entry : Value) :
    Job (Ref Transform) := do
  let keyword := ((entryField entry "keyword" .null).orElse (.text "Transform")).display
  if keyword ∉ transformKeywords then Job.warn [.unknownTransform keyword source]
  let id := recordId entry "step_transform" ((← Job.store).catalog.count .transform)
  let pattern ← patternOf constants entry source
  Job.build (Build.register {
    id
    keyword
    pattern
    source := (entryField entry "source" (.text "")).display : Transform })

/-- Registers the records of a manifest.  Step definitions whose keyword is not among the given
ones are passed over. -/
def register (data : Value) (stepKeywords : List Value) (source : String) :
    Job (List (Ref Definition) × List (Ref Transform)) := do
  if data.nonNull?.isNone then return ([], [])
  else if !data.isMap then throw (.manifest (.notMapping source))
  else do
    let constants ← check (constants data source)
    let entries ← check (records data definitionsKey source)
    let accepted := entries.filter fun entry =>
      stepKeywords.any (·.isText (definitionKeyword entry))
    let definitions ← accepted.mapM (registerDefinition constants source)
    let entries ← check (records data transformsKey source)
    let transforms ← entries.mapM (registerTransform constants source)
    return (definitions, transforms)

end StepTrace.Manifest
