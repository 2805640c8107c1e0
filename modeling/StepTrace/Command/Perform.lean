import StepTrace.Command.Arguments
import StepTrace.Command.Console
import StepTrace.Command.Summary
import StepTrace.View.Dot
import StepTrace.View.Export

/-!
# Commands at work

Setting up a project saves its settings and makes the directory of its feature files.  The other
commands carry out a run, with what the command line does not say taken from the settings.  Linking
always leaves the export behind in the directory of the project, whatever it prints.

Main definitions: `Command.perform` and `Command.run`.
-/

namespace StepTrace

/-- How a command ended. -/
structure Outcome where
  /-- Zero for success, one for a command that stopped early, two for a command line that cannot be
  understood. -/
  exitCode : Nat
  /-- The fault that stopped the command, unless it has been reported. -/
  fault : Option Fault := none
  console : Console
deriving Inhabited

namespace Command

/-- The name and version of the program. -/
def versionLine : String :=
  "featurelink, version 0.1.0"

/-- The path that a setting gives. -/
def settingPath (root : Path) : Value → Except Fault Path
  | .text s => .ok (root.join (.ofString s))
  | _ => .error .wrongType

/-- A path from the command line or, if there is none, from a setting. -/
def choosePath (root : Path) (given : Option String) (setting : Value) : Except Fault Path :=
  match given.filter (· ≠ "") with
  | some path => .ok (.ofString path)
  | none => settingPath root setting

/-- The file that linking leaves behind. -/
def exportFile (root : Path) : Path :=
  (Settings.directory root).child "links.json"

/-- Saves settings, and makes the directory that they name. -/
def saveProject (settings : Settings) (root features : Path) : Action Unit := do
  Action.changeTree fun tree => tree.ensureDirectory features
  Action.changeTree fun tree => settings.save tree root

/-- Sets up a project, or excludes more tags in its settings. -/
def setUpProject (excluded : List String) : Action Unit := do
  let tree ← Action.tree
  let root := tree.workingDirectory
  if Settings.isSaved tree root then do
    Action.print ["Warning: Project is already initialized. Updating configuration."]
    let settings := (← Action.check (Settings.load tree root)).excludeAll excluded
    saveProject settings root (← Action.check (settingPath root settings.featuresDirectory))
    Action.print ["Configuration updated. Existing feature files preserved."]
  else do
    let settings := ({} : Settings).excludeAll excluded
    let features ← Action.check (settingPath root settings.featuresDirectory)
    saveProject settings root features
    Action.print ["Initialized featurelink project.",
      "  Created: " ++ features.toString ++ "/",
      "  Config:  " ++ (Settings.file root).toString]

/-- The run that a selection asks for. -/
def chooseRun (selection : Selection) (wantsManifest : Bool) : Action Run := do
  let tree ← Action.tree
  let root := tree.workingDirectory
  let settings := (← Action.checkReporting (Settings.loadOrUsual tree root)).excludeAll
    selection.excluded
  let features ← Action.check (choosePath root selection.features settings.featuresDirectory)
  if tree.exists? features then do
    if wantsManifest then do
      let manifest ← Action.check (choosePath root selection.manifest settings.definitionsFile)
      return { features, manifest := some manifest, settings }
    else return { features, manifest := none, settings }
  else Action.refuse ("No features found at " ++ features.toString)

/-- Carries out the run that a selection asks for. -/
def trace (selection : Selection) (wantsManifest : Bool) : Action (Store × RunResult) := do
  let run ← chooseRun selection wantsManifest
  Action.perform (run.perform (← Action.tree))

/-- Saves the export. -/
def saveExport (s : Store) : Action Unit := do
  let root := (← Action.tree).workingDirectory
  Action.changeTree fun tree => tree.ensureDirectory (Settings.directory root)
  Action.changeTree fun tree => tree.writeText (exportFile root) (Export.write s)

/-- Prints the summary of a run. -/
def printSummary (s : Store) (r : RunResult) : Action Unit := do
  Action.print (Summary.countLines s r)
  r.report.unmatchedSteps.forM fun id => do
    Action.print [← Action.check (Summary.unmatchedLine s id)]
  let unused := r.report.unusedDefinitions
  if unused ≠ [] then do
    Action.print [s!"Unused step definitions: {unused.length}"]
    unused.forM fun id => do
      Action.print [← Action.check (Summary.unusedLine s id)]
  Action.print (Summary.closingLines s r)

/-- Links the steps of a project. -/
def linkProject (selection : Selection) (format : LinkFormat) : Action Unit := do
  let (s, r) ← trace selection true
  saveExport s
  match format with
  | .json => Action.print [Export.write s]
  | .dot => Action.print [← Action.check (Dot.write s)]
  | .summary => printSummary s r

/-- Carries out a command. -/
def perform : Command → Action Unit
  | .setUp excluded => setUpProject excluded
  | .link selection format => linkProject selection format
  | .listTags selection => do
    let (s, _) ← trace selection false
    Action.print (Summary.tagLines s)
  | .version => Action.print [versionLine]
  | .help => return

/-- The paths that a selection leads to, as far as the settings can be read. -/
def pathsOf (tree : FileTree) (selection : Selection) : List Path :=
  let root := tree.workingDirectory
  match Settings.loadOrUsual tree root with
  | .error _ => []
  | .ok settings =>
    let features := (choosePath root selection.features settings.featuresDirectory).toOption.toList
    let manifest := (choosePath root selection.manifest settings.definitionsFile).toOption.toList
    features ++ features.map (fun path => path.parent.child "README.md") ++ manifest

/-- The paths that a command line makes the program look at, apart from the directory of the
project, which has to be in the tree. -/
def looksAt (tree : FileTree) (args : List String) : List Path :=
  match ofArguments? args with
  | some (.setUp _) => pathsOf tree {}
  | some (.link selection _) => pathsOf tree selection
  | some (.listTags selection) => pathsOf tree selection
  | _ => []

/-- Carries out what a command line asks for. -/
def run (tree : FileTree) (args : List String) : Outcome :=
  match ofArguments? args with
  | none => { exitCode := 2, console := { tree } }
  | some command =>
    match (perform command).run { tree } with
    | (.ok (), console) => { exitCode := 0, console }
    | (.error .reported, console) => { exitCode := 1, console }
    | (.error (.fault fault), console) => { exitCode := 1, fault := some fault, console }

end Command

end StepTrace
