import StepTrace.Trace.Store
import StepTrace.Files.Path

/-!
# Namespaces of files

The directories of a feature file become namespaces, one inside the other, below one root.  They are
created when a file is first placed in them.

The text of a read-me file beside the feature describes the innermost namespace, if nothing
describes it yet.
-/

namespace StepTrace

/-- The identifier and name of the root namespace. -/
def rootNamespaceId : String := "requirements"

/-- The text of the read-me file of a directory, if there is one; it may turn out to be no text. -/
abbrev ReadMe := Option (Except Fault String)

namespace Build

/-- What is registered as the root namespace, which is created on first use. -/
def rootNamespace : Build Entry := do
  match (← get).catalog.find? rootNamespaceId with
  | some entry => return entry
  | none => do
    let r ← register { id := rootNamespaceId, name := rootNamespaceId : Namespace }
    return .nameSpace r

/-- The namespace of a name below another one, created on first use. -/
def childNamespace (parent : Entry) (name : String) : Build Entry := do
  let .nameSpace r := parent | throw .missingField
  let n ← read r
  match n.children.find? name with
  | some child => return .nameSpace child
  | none => do
    let child ← register { id := n.id ++ "/" ++ name, name, parentId := some n.id : Namespace }
    change r fun n => { n with children := n.children.insert name child }
    return .nameSpace child

/-- The namespace that a list of names leads to. -/
def descend (start : Entry) : (names : List String) → Build Entry
  | [] => return start
  | name :: names => do descend (← childNamespace start name) names

/-- The namespace of a file, described by the read-me file if it has no description. -/
def namespaceOf (file : Path) (readMe : ReadMe) : Build Entry := do
  let entry ← descend (← rootNamespace) file.parent.names
  let description ← some? .missingField ((← get).descriptionOf? entry)
  if description.isText "" then
    match readMe with
    | none => return entry
    | some text => do
      let text ← check text
      modify fun s => s.describe entry text
      return entry
  else return entry

end Build

end StepTrace
