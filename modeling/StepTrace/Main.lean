import StepTrace.Command.Perform

/-!
# The program

The program reads from the file system what a command looks at, carries the command out on that
tree, and writes back what has changed.  Everything else is decided by `Command.run`.
-/

namespace StepTrace.Program

/-- The tree with what is at a path, and with all that is below it if `deep`; of a path that is not
there, with the nearest directory above it. -/
partial def load (deep : Bool) (tree : FileTree) (path : Path) : IO FileTree := do
  let place := (← IO.currentDir) / path.toString
  if ← place.isDir then
    let tree := tree.place path .directory
    if deep then
      (← place.readDir).foldlM (fun tree entry => load true tree (path.child entry.fileName)) tree
    else return tree
  else if ← place.pathExists then
    return tree.place path (.file (String.fromUTF8? (← IO.FS.readBinFile place)))
  else if path.names.isEmpty then return tree
  else load false tree path.parent

/-- Writes the files and directories that are new or changed. -/
def save (before after : FileTree) : IO Unit :=
  after.nodes.entries.forM fun (names, node) => do
    if before.node? names != some node then
      let path := (Path.mk "/" names).toString
      match node with
      | .directory => IO.FS.createDir path
      | .file (some text) => IO.FS.writeFile path text
      | .file none => return

/-- Tells a warning. -/
def warn (warning : Warning) : IO Unit :=
  IO.eprintln ("WARNING: " ++ warning.message Fault.description "not a regular expression")

end StepTrace.Program

open StepTrace in
/-- Carries out the command line. -/
def main (args : List String) : IO UInt32 := do
  let root := Path.ofString (← IO.currentDir).toString
  let settings ← Program.load true (.empty root) (Settings.directory root)
  let before ← (Command.looksAt settings args).foldlM (Program.load true) settings
  let outcome := Command.run before args
  Program.save before outcome.console.tree
  outcome.console.warnings.forM Program.warn
  outcome.console.lines.forM fun line => IO.println line
  if let some fault := outcome.fault then
    IO.eprintln ("Fault: " ++ fault.description)
  return outcome.exitCode.toUInt32
