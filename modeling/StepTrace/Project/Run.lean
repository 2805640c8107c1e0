import StepTrace.Gherkin.File
import StepTrace.Linking.Pass
import StepTrace.Manifest.File
import StepTrace.Project.Batch

/-!
# Runs

A run starts from an empty store: it builds all feature files below a path, registers a manifest,
and links.  Files that cannot be read or parsed are passed over with a warning, as is a manifest
that is not there.

Main definition: `Run.perform`.
-/

namespace StepTrace

/-- What a run is about. -/
structure Run where
  /-- The directory of feature files, or one such file. -/
  features : Path
  /-- The manifest, if one is wanted. -/
  manifest : Option Path
  settings : Settings := {}

/-- What a run has done. -/
structure RunResult where
  batch : Batch
  report : LinkReport
deriving Inhabited

namespace Run

/-- Is this a fault that only means that a file cannot be used? -/
def isUnusable : Fault → Bool
  | .file _ | .notGherkin => true
  | _ => false

/-- The document of a feature file; none, with a warning, if the file cannot be used. -/
def readDocument (tree : FileTree) (path : Path) : Job (Option Value) := do
  match tree.readText path >>= Gherkin.readFrom tree with
  | .ok document => return some document.toValue
  | .error fault =>
    if isUnusable fault then do
      Job.warn [.unreadFile path.toString fault]
      return none
    else throw fault

/-- The feature files of a path, to be read when their turn comes. -/
def sources (tree : FileTree) (features : Path) : List Source :=
  (tree.featureFiles features).map fun path => { path, document := readDocument tree path }

/-- Where the paths of a run are seen from: the directory around that of the feature files. -/
def base (tree : FileTree) (features : Path) : Path :=
  (if tree.isDirectory features then features else features.parent).parent

/-- Registers the manifest of a run. -/
def registerManifest (run : Run) (tree : FileTree) : Job Unit :=
  match run.manifest with
  | none => return
  | some path =>
    if tree.exists? path then do
      let _ ← Manifest.load tree path run.settings.stepKeywords
      return
    else Job.warn [.missingManifest path.toString]

/-- Carries out a run. -/
def perform (run : Run) (tree : FileTree) : Job RunResult := do
  modify fun w => { w with store := w.store.clear }
  let batch ← Batch.build tree run.settings (some (base tree run.features))
    (sources tree run.features)
  run.registerManifest tree
  let report ← LinkingPass.linkAll
  return { batch, report }

end Run

end StepTrace
