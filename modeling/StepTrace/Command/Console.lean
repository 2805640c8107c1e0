import StepTrace.Files.Tree
import StepTrace.Project.Run

/-!
# The console

A command works on the directory tree, prints lines, and passes on warnings.  It may stop early:
with a report that it has printed itself, or with a fault.  What it did before it stopped stays,
both in the tree and in print.
-/

namespace StepTrace

/-- What a command works on, and what it has said so far. -/
structure Console where
  tree : FileTree
  lines : List String := []
  warnings : List Warning := []
deriving Inhabited

/-- Why a command stopped early. -/
inductive Stop where
  /-- The reason is the last line that it printed. -/
  | reported
  | fault (fault : Fault)
deriving Inhabited

/-- A part of a command. -/
abbrev Action := ExceptT Stop (StateM Console)

namespace Action

/-- Prints lines. -/
def print (lines : List String) : Action Unit :=
  modify fun c => { c with lines := c.lines ++ lines }

/-- Prints why the command stops, and stops. -/
def refuse {α : Type} (reason : String) : Action α := do
  print ["Error: " ++ reason]
  throw .reported

/-- The directory tree. -/
def tree : Action FileTree := do
  return (← get).tree

/-- The result of a step that may meet a fault. -/
def check {α : Type} (result : Except Fault α) : Action α :=
  match result with
  | .ok a => return a
  | .error fault => throw (.fault fault)

/-- What is printed of a fault: only those of the settings and of the manifest are the user's to
mend. -/
def reportOf? : Fault → Option String
  | .settings fault => some fault.message
  | .manifest fault => some fault.message
  | _ => none

/-- The result of a step whose faults are reported if they can be. -/
def checkReporting {α : Type} (result : Except Fault α) : Action α :=
  match result with
  | .ok a => return a
  | .error fault =>
    match reportOf? fault with
    | some reason => refuse reason
    | none => throw (.fault fault)

/-- Changes the directory tree. -/
def changeTree (change : FileTree → Except FileFault FileTree) : Action Unit := do
  match change (← tree) with
  | .ok tree => modify fun c => { c with tree }
  | .error fault => throw (.fault (.file fault))

/-- Carries out a job on an empty store; its faults are reported if they can be. -/
def perform {α : Type} (job : Job α) : Action (Store × α) := do
  let (result, work) := job.run { store := {} }
  modify fun c => { c with warnings := c.warnings ++ work.warnings }
  return (work.store, ← checkReporting result)

end Action

end StepTrace
