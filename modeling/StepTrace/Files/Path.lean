import StepTrace.Text.Substring

/-!
# Paths

A path is a root, empty for a relative path, and the names that lead from it.  Empty names and
single dots leave no trace; two dots are a name like any other, and only `normalize` resolves them.
-/

namespace StepTrace

open Text

/-- A path. -/
structure Path where
  /-- Empty for a relative path, else one slash or exactly two. -/
  root : String
  names : List String
deriving DecidableEq, Repr, Inhabited

namespace Path

/-- The root of a written path: none, one slash, or exactly two. -/
def rootOf (s : List Char) : String :=
  match s with
  | '/' :: '/' :: '/' :: _ => "/"
  | '/' :: '/' :: _ => "//"
  | '/' :: _ => "/"
  | _ => ""

/-- The path that a text writes. -/
def ofString (s : String) : Path where
  root := rootOf s.toList
  names := ((Text.splitAt '/' s.toList).filter fun name => name ≠ [] ∧ name ≠ ['.']).map
    String.ofList

/-- The path as text; a relative path without names is a dot. -/
def toString (p : Path) : String :=
  if p.root = "" ∧ p.names = [] then "." else p.root ++ String.intercalate "/" p.names

/-- The last name, empty if there is none. -/
def name (p : Path) : String :=
  p.names.getLast?.getD ""

/-- The path without its last name. -/
def parent (p : Path) : Path :=
  { p with names := p.names.dropLast }

/-- The second path, as seen from the first. -/
def join (p q : Path) : Path :=
  if q.root = "" then { p with names := p.names ++ q.names } else q

/-- The path one name further on. -/
def child (p : Path) (name : String) : Path :=
  { p with names := p.names ++ [name] }

/-- Does the last name end in a dot and `suffix`, with something before and behind the dot? -/
def hasSuffix (p : Path) (suffix : String) : Bool :=
  let fromDot := p.name.toList.reverse.takeWhile (· != '.')
  fromDot.length + 1 < p.name.length && !fromDot.isEmpty
    && String.ofList fromDot.reverse == suffix

/-- The path as seen from `base`, if it lies there. -/
def relativeTo? (p base : Path) : Option Path :=
  if p.root = base.root ∧ base.names.isPrefixOf p.names then
    some ⟨"", p.names.drop base.names.length⟩
  else none

/-- The names with two dots resolved against the name before; `done` is in reverse. -/
def resolveDots (absolute : Bool) : (done names : List String) → List String
  | done, [] => done.reverse
  | done, name :: names =>
    if name = ".." then
      match done with
      | [] => if absolute then resolveDots absolute [] names
        else resolveDots absolute [".."] names
      | last :: before =>
        if last = ".." then resolveDots absolute (".." :: done) names
        else resolveDots absolute before names
    else resolveDots absolute (name :: done) names

/-- The path with two dots resolved by their spelling alone. -/
def normalize (p : Path) : Path :=
  { p with names := resolveDots (p.root != "") [] p.names }

/-- The order of two lists of names: name by name, each by code points. -/
def namesLe : List String → List String → Bool
  | [], _ => true
  | _ :: _, [] => false
  | a :: as, b :: bs => if a = b then namesLe as bs else decide (a < b)

/-- The order of paths: by their roots, then name by name. -/
def le (p q : Path) : Bool :=
  if p.root = q.root then namesLe p.names q.names else decide (p.root < q.root)

end Path

end StepTrace
