import StepTrace.Linking.Pattern
import StepTrace.Trace.Job

/-!
# Linking

A pass links the steps of features to definitions and transforms.  The patterns of all registered
definitions and transforms are read once, when the first feature is linked.  A step is linked to the
first definition, in the order of registration, whose pattern occurs in its text, and to every
transform whose pattern occurs in something that the pattern of the definition has captured.
Templates of outlines are not linked, only the scenarios made from them.

A feature that cannot be linked to its end is reported; the steps before the fault stay linked.

Main definitions: `PatternCache.firstDefinition?`, `LinkingPass.linkFeature` and `LinkingPass.run`.
-/

namespace StepTrace

/-- The outcome of a pass, as identifiers. -/
structure LinkReport where
  linkedSteps : List String := []
  unmatchedSteps : List String := []
  unusedDefinitions : List String := []
  failedFeatures : List String := []
deriving DecidableEq, Repr, Inhabited

/-- A pass is a success if no feature failed. -/
def LinkReport.isSuccess (r : LinkReport) : Bool :=
  r.failedFeatures.isEmpty

/-- The patterns that can be searched for, in the order of registration. -/
structure PatternCache where
  definitions : List (Regex × Ref Definition) := []
  transforms : List (Regex × Ref Transform) := []
deriving Inhabited

namespace PatternCache

/-- The patterns of the given records that can be searched for. -/
def readAll {α : Type} (pattern : α → Value) : List α → Job (List (Regex × α))
  | [] => return []
  | x :: xs => do
    match Linking.readPattern (pattern x) with
    | .error fault => throw fault
    | .ok (regex?, warnings) => do
      Job.warn warnings
      let rest ← readAll pattern xs
      match regex? with
      | some regex => return (regex, x) :: rest
      | none => return rest

/-- The patterns of everything that is registered. -/
def ofStore : Job PatternCache := do
  let s ← Job.store
  let definitions ← readAll (fun r => (s.get r).pattern) s.allDefinitions
  let transforms ← readAll (fun r => (s.get r).pattern) s.allTransforms
  return { definitions, transforms }

/-- The first definition whose pattern occurs in the text, with the match.  With a pattern to
search for, the text has to be one. -/
def firstDefinition? (c : PatternCache) (text : Value) :
    Except Fault (Option (Ref Definition × Regex.Match)) :=
  match c.definitions, text with
  | [], _ => .ok none
  | definitions, .text s =>
    .ok (definitions.findSome? fun (regex, d) => (regex.search? s).map fun m => (d, m))
  | _, _ => .error .wrongType

/-- The transforms whose patterns occur in the text. -/
def transformsIn (c : PatternCache) (text : String) : List (Ref Transform) :=
  (c.transforms.filter fun (regex, _) => regex.occursIn text).map (·.2)

end PatternCache

/-- A pass, with the patterns that it has read and its report so far. -/
structure LinkingPass where
  cache : Option PatternCache := none
  report : LinkReport := {}
deriving Inhabited

/-- A pass at work. -/
structure LinkingWork extends Work where
  pass : LinkingPass := {}
deriving Inhabited

/-- A step of a pass. -/
abbrev Linking := ExceptT Fault (StateM LinkingWork)

namespace LinkingPass

/-- Carries out a job. -/
def job {α : Type} (t : Job α) : Linking α := fun w =>
  let (result, work) := t.run w.toWork
  (result, { w with toWork := work })

/-- Changes the report. -/
def tell (f : LinkReport → LinkReport) : Linking Unit :=
  modify fun w => { w with pass := { w.pass with report := f w.pass.report } }

/-- The patterns of the pass, read on first use. -/
def patterns : Linking PatternCache := do
  match (← get).pass.cache with
  | some cache => return cache
  | none => do
    let cache ← job PatternCache.ofStore
    modify fun w => { w with pass := { w.pass with cache := some cache } }
    return cache

/-- Adds an identifier that is not in the list. -/
def addNew {α : Type} [DecidableEq α] (x : α) (xs : List α) : List α :=
  if x ∈ xs then xs else xs ++ [x]

/-- The store with a step and a transform linked, each to the other once. -/
def linkTransform (step : Ref Step) (s : Store) (transform : Ref Transform) : Store :=
  let s := s.modify step fun x => { x with transforms := addNew transform x.transforms }
  let id := (s.get step).id
  s.modify transform fun t => { t with steps := addNew id t.steps }

/-- The store with a step and a definition linked. -/
def linkDefinition (step : Ref Step) (s : Store) (definition : Ref Definition) : Store :=
  let s := s.modify step fun x => { x with definition := some definition }
  let id := (s.get step).id
  s.modify definition fun d => { d with steps := addNew id d.steps }

/-- The transforms of a match: for each group that has captured something, those whose patterns
occur in it. -/
def transformsOf (cache : PatternCache) (m : Regex.Match) : List (Ref Transform) :=
  (m.groups.filterMap fun group => group.filter (· ≠ "")).flatMap cache.transformsIn

/-- Links a step, and says whether a definition was found. -/
def linkStep (cache : PatternCache) (step : Ref Step) : Job Bool := do
  let s ← Job.store
  match cache.firstDefinition? (s.get step).text with
  | .error fault => throw fault
  | .ok none => return false
  | .ok (some (definition, m)) => do
    let s := linkDefinition step s definition
    let s := (transformsOf cache m).foldl (linkTransform step) s
    modify fun w => { w with store := s }
    return true

/-- Links the steps of a scenario and reports them. -/
def linkSteps (cache : PatternCache) : List (Ref Step) → Linking Unit
  | [] => return
  | step :: steps => do
    let found ← job (linkStep cache step)
    let id := ((← get).store.get step).id
    if found then tell fun r => { r with linkedSteps := r.linkedSteps ++ [id] }
    else tell fun r => { r with unmatchedSteps := r.unmatchedSteps ++ [id] }
    linkSteps cache steps

/-- Links the scenarios of a feature; nothing else has any. -/
def linkScenarios (entry : Option Entry) : Linking Unit := do
  let cache ← patterns
  match entry with
  | some (.feature r) => do
    let s := (← get).store
    (s.stepContainers (s.get r)).forM fun scenario => do
      linkSteps cache ((← get).store.get scenario).steps
  | _ => throw .missingField

/-- The display name of a record, if its type has one. -/
def nameOf? (s : Store) : Entry → Option String
  | .nameSpace r => some (s.get r).name
  | .feature r => some (s.get r).name
  | .examples r => some (s.get r).name.display
  | .tag r => some (s.get r).name
  | _ => none

/-- Links a feature, and says whether that went well.  A fault is reported under the name of the
feature; what has no name cannot be reported. -/
def linkFeature (entry : Option Entry) : Linking Bool := fun w =>
  match (linkScenarios entry).run w with
  | (.ok (), w) => (.ok true, w)
  | (.error fault, w) =>
    match entry.bind fun entry => (nameOf? w.store entry).map fun name => (entry, name) with
    | some (entry, name) =>
      let report := { w.pass.report with
        failedFeatures := w.pass.report.failedFeatures ++ [w.store.idOf entry] }
      (.ok false, { w with
        warnings := w.warnings ++ [.unlinkedFeature name fault]
        pass := { w.pass with report } })
    | none => (.error .missingField, w)

/-- The store without links between registered records. -/
def unlink (s : Store) : Store :=
  let s := s.allSteps.foldl (fun s r =>
    s.modify r fun x => { x with definition := none, transforms := [] }) s
  let s := s.allDefinitions.foldl (fun s r => s.modify r fun d => { d with steps := [] }) s
  s.allTransforms.foldl (fun s r => s.modify r fun t => { t with steps := [] }) s

/-- Forgets the patterns, the report, and all links. -/
def reset : Linking Unit :=
  modify fun w => { w with store := unlink w.store, pass := {} }

/-- The definitions that no step is linked to. -/
def unusedDefinitions (s : Store) : List String :=
  ((s.allDefinitions.map fun r => s.get r).filter fun d => d.steps.isEmpty).map (·.id)

/-- Links all registered features anew. -/
def run : Linking LinkReport := do
  reset
  (← get).store.allFeatures.forM fun r => do
    let _ ← linkFeature (some (.feature r))
  let unused := unusedDefinitions (← get).store
  tell fun r => { r with unusedDefinitions := unused }
  return (← get).pass.report

/-- A fresh pass over all registered features. -/
def linkAll : Job LinkReport := fun w =>
  let (result, done) := run.run { toWork := w }
  (result, done.toWork)

end LinkingPass

end StepTrace
