import StepTrace.Trace.Store
import StepTrace.Warning

/-!
# Jobs

A job is an action that may also warn.  Its state is whatever holds a store and the warnings so
far; what a job did before it was refused stays, its warnings included.
-/

namespace StepTrace

/-- A store, and the warnings given while it was worked on. -/
structure Work where
  store : Store
  warnings : List Warning := []
deriving Inhabited

/-- An action that may warn. -/
abbrev Job := ExceptT Fault (StateM Work)

namespace Job

/-- Gives warnings. -/
def warn (warnings : List Warning) : Job Unit :=
  modify fun w => { w with warnings := w.warnings ++ warnings }

/-- Carries out a build. -/
def build {α : Type} (action : Build α) : Job α := fun w =>
  let (result, store) := action.run w.store
  (result, { w with store })

/-- Carries out a build that may be refused, and gives its result. -/
def attempt {α : Type} (action : Build α) : Job (Except Fault α) := fun w =>
  let (result, store) := action.run w.store
  (.ok result, { w with store })

/-- The result of a step that touches nothing. -/
def check {α : Type} (result : Except Fault α) : Job α :=
  match result with
  | .ok a => return a
  | .error fault => throw fault

/-- The store. -/
def store : Job Store := do
  return (← get).store

end Job

end StepTrace
