import StepTrace.Files.Path
import StepTrace.OrderedMap
import StepTrace.Fault

/-!
# Directory trees

The files and directories that a run can see, as a value.  A file is the text that it holds; a file
whose bytes are not UTF-8 holds no text.  Paths are followed from the working directory name by
name, so every name on the way has to be a directory that is there.
-/

namespace StepTrace

/-- What is found at a path. -/
inductive FileNode where
  | directory
  /-- A file, with its text unless its bytes are not UTF-8. -/
  | file (text : Option String)
deriving DecidableEq, Repr, Inhabited

/-- Directories and files by the names that lead to them from the root, and the working
directory. -/
structure FileTree where
  nodes : OrderedMap (List String) FileNode := .empty
  workingDirectory : Path
deriving Repr, Inhabited

namespace FileTree

/-- What is at a list of names.  The root is always a directory. -/
def node? (t : FileTree) : List String → Option FileNode
  | [] => some .directory
  | names => t.nodes.find? names

/-- Follows names from a directory.  All but the last have to be directories. -/
def follow (t : FileTree) : (here names : List String) → Except FileFault (List String)
  | here, [] => .ok here
  | here, name :: names =>
    match t.node? here with
    | none => .error .notFound
    | some (.file _) => .error .notDirectory
    | some .directory => follow t (if name = ".." then here.dropLast else here ++ [name]) names

/-- The names that a path stands for. -/
def resolve (t : FileTree) (p : Path) : Except FileFault (List String) :=
  t.follow [] (t.workingDirectory.join p).names

/-- What is at a path, if anything. -/
def find? (t : FileTree) (p : Path) : Option FileNode :=
  match t.resolve p with
  | .ok names => t.node? names
  | .error _ => none

def exists? (t : FileTree) (p : Path) : Bool :=
  (t.find? p).isSome

def isDirectory (t : FileTree) (p : Path) : Bool :=
  t.find? p == some .directory

def isFile (t : FileTree) (p : Path) : Bool :=
  match t.find? p with
  | some (.file _) => true
  | _ => false

/-- The text of a file, with every line end written as a line feed. -/
def readText (t : FileTree) (p : Path) : Except Fault String := do
  match t.resolve p with
  | .error fault => throw (.file fault)
  | .ok names =>
    match t.node? names with
    | none => throw (.file .notFound)
    | some .directory => throw (.file .isDirectory)
    | some (.file none) => throw .undecodable
    | some (.file (some text)) => return String.ofList (Text.unifyNewlines text.toList)

/-- The path that a text writes, if something is there.  A text that ends in a slash, or in a single
dot behind one, writes the path of a directory only; the empty text writes no path. -/
def writtenPath? (t : FileTree) (text : String) : Option Path :=
  let path := Path.ofString text
  let last := (Text.splitAt '/' text.toList).getLast?.getD []
  if text = "" then none
  else if last = [] ∨ last = ['.'] then if t.isDirectory path then some path else none
  else if t.exists? path then some path
  else none

/-- The tree with a node put at a list of names. -/
def put (t : FileTree) (names : List String) (node : FileNode) : FileTree :=
  { t with nodes := t.nodes.insert names node }

/-- The tree with a text written to a file. -/
def writeText (t : FileTree) (p : Path) (text : String) : Except FileFault FileTree := do
  let names ← t.resolve p
  match t.node? names, t.node? names.dropLast with
  | some .directory, _ => throw .isDirectory
  | _, some .directory => return t.put names (.file (some text))
  | _, some (.file _) => throw .notDirectory
  | _, none => throw .notFound

/-- The tree with a new directory. -/
def makeDirectory (t : FileTree) (p : Path) : Except FileFault FileTree := do
  let names ← t.resolve p
  match t.node? names, t.node? names.dropLast with
  | some _, _ => throw .alreadyExists
  | none, some .directory => return t.put names .directory
  | none, some (.file _) => throw .notDirectory
  | none, none => throw .notFound

/-- The tree with a directory that may have been there. -/
def ensureDirectory (t : FileTree) (p : Path) : Except FileFault FileTree :=
  match t.makeDirectory p with
  | .ok t => .ok t
  | .error fault => if t.isDirectory p then .ok t else .error fault

/-- The tree with a directory that may have been there, and with those that lead to it. -/
def ensureDirectories (t : FileTree) (p : Path) : Except FileFault FileTree :=
  match t.makeDirectory p with
  | .error .notFound =>
    if p.names = [] then .error .notFound
    else do (← t.ensureDirectories p.parent).ensureDirectory p
  | .ok t => .ok t
  | .error fault => if t.isDirectory p then .ok t else .error fault
termination_by p.names.length
decreasing_by
  simp only [Path.parent, List.length_dropLast]
  exact Nat.sub_one_lt (by simpa using ‹p.names ≠ []›)

/-- The tree with the directories that lead to a list of names, as far as they were missing. -/
def withParents (t : FileTree) (names : List String) : FileTree :=
  (List.range names.length).foldl (fun t count =>
    let above := names.take count
    if (t.node? above).isSome then t else t.put above .directory) t

/-- The tree with a node at the names of a path, its directories made on the way. -/
def place (t : FileTree) (p : Path) (node : FileNode) : FileTree :=
  let names := (t.workingDirectory.join p).normalize.names
  let t := t.withParents names
  if names = [] ∨ (node = .directory ∧ t.node? names = some .directory) then t
  else t.put names node

/-- The tree without what is at a path, and without what is inside. -/
def remove (t : FileTree) (p : Path) : FileTree :=
  match t.resolve p with
  | .error _ => t
  | .ok names =>
    { t with nodes := ⟨t.nodes.entries.filter fun entry => !names.isPrefixOf entry.1⟩ }

/-- A tree that holds nothing but its working directory. -/
def empty (workingDirectory : Path) : FileTree :=
  place { workingDirectory } ⟨"", []⟩ .directory

/-! ## Feature files -/

/-- Does a name end as those of feature files do? -/
def isFeatureName (name : String) : Bool :=
  ".feature".toList.isSuffixOf name.toList

/-- The feature files in a directory and below it, in the order of their paths. -/
def featuresBelow (t : FileTree) (root : Path) (names : List String) : List Path :=
  let found := t.nodes.entries.filterMap fun (place, node) =>
    match node with
    | .file _ =>
      let inside := place.drop names.length
      if names.isPrefixOf place && isFeatureName (inside.getLast?.getD "") then
        some { root with names := root.names ++ inside }
      else none
    | .directory => none
  found.mergeSort Path.le

/-- The feature files of a path: those below it if it is a directory, or the path itself if it is a
feature file. -/
def featureFiles (t : FileTree) (root : Path) : List Path :=
  match t.resolve root with
  | .error _ => []
  | .ok names =>
    match t.node? names with
    | some (.file _) => if root.hasSuffix "feature" then [root] else []
    | some .directory => t.featuresBelow root names
    | none => []

end FileTree

end StepTrace
