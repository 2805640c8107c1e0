import StepTrace.Yaml.Node

/-!
# Merge keys

A mapping takes over the fields of another with a merge key, whose value is that mapping or a list
of mappings.  The fields taken over come before its own, so that its own count in the end; of a list
the first mapping comes last.  The other mapping has taken over its own fields before.

A merge key is taken out before its value is looked at.  Every step therefore leaves fewer merge
keys in the document, also where a mapping takes over fields of itself, and the number of all fields
bounds the depth of the recursion.

Main definition: `Graph.merged`.
-/

namespace StepTrace.Yaml

/-- A field by the numbers of its key and its value. -/
abbrev Field := Nat × Nat

/-- A step that changes nodes and fails on a malformed document. -/
abbrev Merging := StateT Graph Option

namespace Merging

/-- Takes the first merge key out of a mapping, and gives its value. -/
def takeMergeKey (id : Nat) : Merging (Option Nat) := do
  let g ← get
  let fields := (g.fields? id).getD []
  let isMerge (field : Field) : Bool := (g.node field.1).tag == .merge
  match fields.find? isMerge with
  | none => return none
  | some (_, value) => do
    set (g.putFields id (fields.eraseP isMerge))
    return some value

/-- Puts fields in front of those of a mapping.  A key for the value of the whole mapping becomes a
key like any other. -/
def putInFront (id : Nat) (taken : List Field) : Merging Unit := do
  let g ← get
  let own := (g.fields? id).getD []
  let g := own.foldl (fun g (key, _) =>
    if (g.node key).tag = .value then g.put key { g.node key with tag := .text } else g) g
  set (if taken.isEmpty then g else g.putFields id (taken ++ own))

mutual

/-- Takes over all that the merge keys of a mapping ask for. -/
def flatten : (fuel : Nat) → (id : Nat) → Merging Unit
  | 0, _ => failure
  | fuel + 1, id => do
    putInFront id (← taken fuel id)

/-- The fields that the merge keys of a mapping ask for, which are taken out. -/
def taken : (fuel : Nat) → (id : Nat) → Merging (List Field)
  | 0, _ => failure
  | fuel + 1, id => do
    match ← takeMergeKey id with
    | none => return []
    | some value => do
      let fields ←
        match ((← get).node value).content with
        | .mapping _ => flattened fuel value
        | .sequence items => do
          let parts ← items.mapM (flattened fuel)
          pure parts.reverse.flatten
        | .scalar _ => failure
      return fields ++ (← taken fuel id)

/-- The fields of a mapping, with those that it takes over. -/
def flattened : (fuel : Nat) → (id : Nat) → Merging (List Field)
  | 0, _ => failure
  | fuel + 1, id => do
    if ((← get).fields? id).isNone then failure
    flatten fuel id
    return ((← get).fields? id).getD []

end

end Merging

/-- The graph in which a mapping has taken over what its merge keys ask for; `bound` is at least the
number of merge keys. -/
def Graph.merged (g : Graph) (bound id : Nat) : Option Graph :=
  ((Merging.flatten (3 * bound + 3) id).run g).map (·.2)

end StepTrace.Yaml
