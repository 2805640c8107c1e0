import StepTrace.Files.Tree
import StepTrace.Json.Reader
import StepTrace.Json.Writer
import StepTrace.Manifest.Records
import StepTrace.Trace.Name

/-!
# Settings of a project

A project keeps its settings in a JSON file of its own directory.  What the file does not say is as
in a project without settings.  Of the two lists only the elements are looked at, so a text stands
for its characters and a mapping for its keys; the other settings are taken as they are.

Main definitions: `Settings.load`, `Settings.save` and `Settings.excluded`.
-/

namespace StepTrace

/-- The settings of a project. -/
structure Settings where
  version : Value := .text "0.1.0"
  /-- The directory of the feature files. -/
  featuresDirectory : Value := .text "features"
  /-- The file of the manifest. -/
  definitionsFile : Value := .text "step_definitions.yaml"
  /-- The tags that exclude what declares them, with or without their sigil. -/
  excludedTags : List Value := []
  /-- The keywords of the step definitions that are used. -/
  stepKeywords : List Value := Manifest.defaultStepKeywords.map .text
deriving Repr, Inhabited

/-- The names without one leading sigil. -/
def bareNames : List Value → Except Fault (List String)
  | [] => .ok []
  | .text s :: vs => do return stripSigil s :: (← bareNames vs)
  | _ :: _ => .error .missingField

namespace Settings

/-- The directory of a project that holds its settings and results. -/
def directory (root : Path) : Path :=
  root.child ".featurelink"

/-- The settings file of a project. -/
def file (root : Path) : Path :=
  (directory root).child "config.json"

/-! ## Exclusions -/

/-- The names of the excluded tags, without their sigils and without repeats. -/
def excluded (s : Settings) : Except Fault (List String) := do
  return (← bareNames s.excludedTags).foldl
    (fun names name => if name ∈ names then names else names ++ [name]) []

/-- The settings with a tag excluded too. -/
def exclude (s : Settings) (tag : String) : Settings :=
  if s.excludedTags.any (·.isText tag) then s
  else { s with excludedTags := s.excludedTags ++ [.text tag] }

/-- The settings with several tags excluded too. -/
def excludeAll (s : Settings) (tags : List String) : Settings :=
  tags.foldl exclude s

/-! ## The settings file -/

/-- The settings as an object. -/
def toValue (s : Settings) : Value :=
  .ofFields [
    ("version", s.version),
    ("features_dir", s.featuresDirectory),
    ("definitions_file", s.definitionsFile),
    ("exclude_tags", .list s.excludedTags),
    ("step_keywords", .list s.stepKeywords)]

/-- The settings that an object gives. -/
def ofValue (v : Value) : Except Fault Settings := do
  let usual : Settings := {}
  let field (key : String) (default : Value) : Value := (v.lookup? key).getD default
  return {
    version := field "version" usual.version
    featuresDirectory := field "features_dir" usual.featuresDirectory
    definitionsFile := field "definitions_file" usual.definitionsFile
    excludedTags := ← (field "exclude_tags" (.list usual.excludedTags)).elements
    stepKeywords := ← (field "step_keywords" (.list usual.stepKeywords)).elements }

/-- The text of a settings file. -/
def write (s : Settings) : String :=
  Json.write (.indented 2) s.toValue ++ "\n"

/-- The settings that the text of a settings file gives. -/
def read (path text : String) : Except Fault Settings :=
  match Json.read? text with
  | none => .error (.settings (.unreadable path))
  | some v => if v.isMap then ofValue v else .error (.settings (.notObject path))

/-- Does the project have settings? -/
def isSaved (tree : FileTree) (root : Path) : Bool :=
  tree.exists? (file root)

/-- The settings of a project, which has to have some. -/
def load (tree : FileTree) (root : Path) : Except Fault Settings := do
  let path := (file root).toString
  if isSaved tree root then read path (← tree.readText (file root))
  else throw (.noSettings path)

/-- The settings of a project, or the usual ones. -/
def loadOrUsual (tree : FileTree) (root : Path) : Except Fault Settings :=
  if isSaved tree root then load tree root else .ok {}

/-- The tree with the settings of a project saved. -/
def save (s : Settings) (tree : FileTree) (root : Path) : Except FileFault FileTree := do
  (← tree.ensureDirectories (directory root)).writeText (file root) s.write

end Settings

end StepTrace
