import StepTrace.Trace.Store
import StepTrace.Trace.Name
import StepTrace.Value.Access

/-!
# Tags of documents

A tag is found by its token, so that all declarations of a token share one record.  What declares a
tag holds the tag itself; the tag holds the identifiers of what declares it, and the places.

Tags also exclude: what declares a tag whose name, without its sigil, is among the excluded names is
not built.
-/

namespace StepTrace

/-- The text that a tag node gives as its name. -/
def tagNodeName (node : Value) : Except Fault String := do
  match ← node.require "name" with
  | .text s => return s
  | _ => throw .missingField

/-- Does a list of tag nodes declare one of the excluded names?  Without nodes, or with nothing to
exclude, no node is looked at. -/
def declaresExcluded (excluded : List String) (nodes : Value) : Except Fault Bool := do
  if !nodes.isPresent || excluded.isEmpty then return false
  let names ← (← nodes.elements).mapM tagNodeName
  return excluded.any fun name => name ∈ names.map stripSigil

namespace Build

/-- The tag of a token, which is created on its first use. -/
def tagOf (token : Value) : Build Entry := do
  match (← get).catalog.find? (tagId token.display) with
  | some entry => return entry
  | none =>
    match token with
    | .text s => return .tag (← register { id := tagId s, name := stripSigil s, value := s : Tag })
    | _ => throw .missingField

/-- Declares a tag on a record, which need not be there: the tag learns the place and the owner, the
owner gets the tag, each once.  Without a line the place is that of the owner. -/
def declareTag (file : String) (token : Value) (owner : Option Entry) (line : Value) :
    Build (Ref Tag) := do
  let .tag tag ← tagOf token | throw .missingField
  let line ←
    if line.isPresent then pure line
    else do
      let location ← some? .missingField (owner.bind (← get).locationOf?)
      pure (.int location.line)
  change tag fun t => { t with sites := t.sites ++ [⟨file, line⟩] }
  let entry ← some? .missingField owner
  let tags ← some? .missingField ((← get).tagsOf? entry)
  if tag ∉ tags then modify fun s => s.modifyTags entry (· ++ [tag])
  let id := (← get).idOf entry
  if id ∉ (← read tag).owners then change tag fun t => { t with owners := t.owners ++ [id] }
  return tag

/-- Declares the tag of a node on a record. -/
def declareNode (file : String) (owner : Option Entry) (node : Value) : Build Unit := do
  let location := (← check (node.field "location")).orElse (.map [])
  let token ← check (node.require "name")
  let line ← check (location.field "line" (.int 0))
  let _ ← declareTag file token owner line

/-- Declares the tags of a list of nodes on a record. -/
def declareAll (file : String) (nodes : Value) (owner : Option Entry) : Build Unit := do
  (← check (nodes.orElse (.list [])).elements).forM (declareNode file owner)

/-- Counts scenarios for each tag that the scenario has and its feature has not, once for each
tag.  The tags of the feature are looked at only if they are needed. -/
def countScenarios (count : Int) (ofFeature : Option (List (Ref Tag))) :
    (seen tags : List (Ref Tag)) → Build Unit
  | _, [] => return
  | seen, tag :: tags => do
    if tag ∈ seen then countScenarios count ofFeature seen tags
    else
      let known ← some? .missingField ofFeature
      if tag ∈ known then countScenarios count ofFeature seen tags
      else do
        change tag fun t => { t with totalScenarios := t.totalScenarios + count }
        countScenarios count ofFeature (tag :: seen) tags

end Build

end StepTrace
