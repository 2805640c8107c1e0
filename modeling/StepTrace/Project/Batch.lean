import StepTrace.Assembly.Feature
import StepTrace.Files.Tree
import StepTrace.Project.Settings
import StepTrace.Trace.Snapshot
import StepTrace.Trace.Job

/-!
# Batches of documents

A batch builds documents one after the other.  A document that is malformed is passed over: there is
a warning, and the store goes back to what it was before that document.  What is wrong with a batch
as a whole, and faults that do not come from the shape of a document, end it.

Main definition: `Batch.build`.
-/

namespace StepTrace

/-- A file whose document is to be built. -/
structure Source where
  path : Path
  /-- Reads the document; none if there is no document to be had. -/
  document : Job (Option Value)

/-- What a batch has built, and the files that it has passed over. -/
structure Batch where
  features : List (Ref Feature) := []
  skipped : List String := []
deriving Inhabited

namespace Batch

/-- The path by which a file is known: as seen from the base if it lies there. -/
def knownAs (base : Option Path) (path : Path) : Path :=
  match base.bind path.relativeTo? with
  | some inside => inside
  | none => path.normalize

/-- The read-me file beside a file. -/
def readMeOf (tree : FileTree) (path : Path) : ReadMe :=
  let readMe := path.parent.child "README.md"
  if tree.isFile readMe then some (tree.readText readMe) else none

/-- Is the fault a matter of the one document? -/
def isLocal : Fault → Bool
  | .missingKey _ | .wrongType | .notInteger | .undecodable => true
  | _ => false

/-- Builds a document; a malformed one leaves nothing behind. -/
def buildOne (tree : FileTree) (settings : Settings) (file path : Path) (content : Value) :
    Job (Option (Ref Feature)) := do
  let snapshot := (← Job.store).snapshot
  let result ← Job.attempt do
    let excluded ← Build.check settings.excluded
    Build.feature file content excluded (readMeOf tree path)
  match result with
  | .ok feature => return feature
  | .error fault =>
    if isLocal fault then do
      Job.warn [.unbuiltFile file.toString fault]
      Job.build snapshot.rollback
      return none
    else throw fault

/-- Builds documents in order. -/
def build (tree : FileTree) (settings : Settings) (base : Option Path) :
    List Source → Job Batch
  | [] => return {}
  | source :: sources => do
    let file := knownAs base source.path
    let feature ←
      match ← source.document with
      | some content => buildOne tree settings file source.path content
      | none => pure none
    let batch ← build tree settings base sources
    match feature with
    | some r => return { batch with features := r :: batch.features }
    | none => return { batch with skipped := file.toString :: batch.skipped }

end Batch

end StepTrace
