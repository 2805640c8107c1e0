import StepTrace.Trace.Store

/-!
# Snapshots

A snapshot holds what is needed to undo builds: the identifiers that were registered, and of tags
and namespaces, which later builds add to, how far they had come.  Going back takes out what was
registered since and cuts the lists of tags and namespaces back to their former lengths.

Going back fails at a tag or namespace that the snapshot does not know as one; what it has undone
by then stays undone.
-/

namespace StepTrace

/-- How far a tag had come. -/
structure TagMark where
  owners : Nat
  sites : Nat
  totalScenarios : Int
deriving DecidableEq, Repr, Inhabited

/-- How far a namespace had come. -/
structure NamespaceMark where
  features : Nat
  children : List String
  description : String
deriving DecidableEq, Repr, Inhabited

/-- What a store held at one moment. -/
structure Snapshot where
  ids : List String
  tags : List (String × TagMark)
  namespaces : List (String × NamespaceMark)
deriving Repr, Inhabited

/-- How far the tag has come. -/
def Tag.mark (t : Tag) : TagMark :=
  ⟨t.owners.length, t.sites.length, t.totalScenarios⟩

/-- The tag as it was at the mark. -/
def Tag.backTo (m : TagMark) (t : Tag) : Tag :=
  { t with
    owners := t.owners.take m.owners
    sites := t.sites.take m.sites
    totalScenarios := m.totalScenarios }

/-- How far the namespace has come. -/
def Namespace.mark (n : Namespace) : NamespaceMark :=
  ⟨n.featureIds.length, n.children.keys, n.description⟩

/-- The namespace as it was at the mark. -/
def Namespace.backTo (m : NamespaceMark) (n : Namespace) : Namespace :=
  { n with
    featureIds := n.featureIds.take m.features
    children := ⟨n.children.entries.filter fun child => child.1 ∈ m.children⟩
    description := m.description }

namespace Store

/-- A snapshot of the store. -/
def snapshot (s : Store) : Snapshot where
  ids := s.catalog.ids
  tags := s.allTags.map fun r => ((s.get r).id, (s.get r).mark)
  namespaces := s.allNamespaces.map fun r => ((s.get r).id, (s.get r).mark)

/-- The store without the identifiers that were not registered at the snapshot. -/
def removeSince (s : Store) (snap : Snapshot) : Store :=
  (s.catalog.ids.filter fun id => id ∉ snap.ids).foldl remove s

end Store

namespace Snapshot

/-- Cuts tags back to their marks. -/
def restoreTags (snap : Snapshot) : List (Ref Tag) → Build Unit
  | [] => return
  | r :: rest => do
    let t ← Build.read r
    match snap.tags.lookup t.id with
    | some mark => do
      Build.change r (·.backTo mark)
      restoreTags snap rest
    | none => throw (.missingKey t.id)

/-- Cuts namespaces back to their marks. -/
def restoreNamespaces (snap : Snapshot) : List (Ref Namespace) → Build Unit
  | [] => return
  | r :: rest => do
    let n ← Build.read r
    match snap.namespaces.lookup n.id with
    | some mark => do
      Build.change r (·.backTo mark)
      restoreNamespaces snap rest
    | none => throw (.missingKey n.id)

/-- Goes back to the snapshot. -/
def rollback (snap : Snapshot) : Build Unit := do
  modify fun s => s.removeSince snap
  restoreTags snap (← get).allTags
  restoreNamespaces snap (← get).allNamespaces

end Snapshot

end StepTrace
