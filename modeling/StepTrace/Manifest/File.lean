import StepTrace.Files.Tree
import StepTrace.Manifest.Records
import StepTrace.Yaml.Reader

/-!
# Manifest files

A manifest is kept in a YAML file.  The path of the file is what messages call the manifest by.
-/

namespace StepTrace.Manifest

/-- Registers the records of a manifest file. -/
def load (tree : FileTree) (path : Path) (stepKeywords : List Value) :
    Job (List (Ref Definition) × List (Ref Transform)) := do
  let text ← Job.check (tree.readText path)
  match Yaml.read text with
  | .ok data => register data stepKeywords path.toString
  | .error .malformed => throw (.manifest (.unreadable path.toString))
  | .error (.scalar fault) => throw (.scalar fault)

end StepTrace.Manifest
