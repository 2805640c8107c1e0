import StepTrace.Warning
import StepTrace.Text.Substring

/-!
# Constants in patterns

A pattern may name constants of its manifest, as in `#{COUNT}`, with blanks allowed inside the
braces.  A constant is cleaned before it is put in: it loses its slashes and anchors, and its groups
become non-capturing, so that it adds no group to the pattern.

A text is looked at as a list of `Piece`s, single characters and references; putting in a constant
is then a map over the pieces.  References are expanded in rounds, because a constant may name
others; after `maxRounds` rounds the pattern is left as it is.

Main definitions: `cleanConstant` and `substituteConstants`.
-/

namespace StepTrace.Manifest

open Text

/-! ## Cleaning a constant -/

/-- The text without one slash at its beginning and one at its end. -/
def stripSlashes (s : List Char) : List Char :=
  let s := match s with
    | '/' :: rest => rest
    | s => s
  if ['/'].isSuffixOf s then s.dropLast else s

/-- The text without a caret at its beginning, and without a dollar sign at its end unless a
backslash stands before it. -/
def stripAnchors (s : List Char) : List Char :=
  let s := match s with
    | '^' :: rest => rest
    | s => s
  if ['$'].isSuffixOf s && !List.isSuffixOf ['\\', '$'] s then s.dropLast else s

/-- What follows `(?P<name>`, if the text begins so. -/
def afterNamedGroup? (s : List Char) : Option (List Char) :=
  match s with
  | '(' :: '?' :: 'P' :: '<' :: rest =>
    match rest.takeWhile isWord, rest.dropWhile isWord with
    | _ :: _, '>' :: rest => some rest
    | _, _ => none
  | _ => none

theorem length_of_afterNamedGroup? {s rest : List Char} (h : afterNamedGroup? s = some rest) :
    rest.length < s.length := by
  unfold afterNamedGroup? at h
  split at h
  · rename_i t
    split at h
    · rename_i heq
      have hle := (List.dropWhile_suffix isWord (l := t)).length_le
      rw [heq] at hle
      cases h
      simp only [List.length_cons] at hle ⊢
      omega
    · cases h
  · cases h

/-- Every opening of a named group written as that of a non-capturing one, unless a backslash
stands before it; `escaped` says whether one stands before the text. -/
def dropGroupNames (escaped : Bool) (s : List Char) : List Char :=
  match s with
  | [] => []
  | c :: rest =>
    match _h : if escaped then none else afterNamedGroup? (c :: rest) with
    | some after => '(' :: '?' :: ':' :: dropGroupNames false after
    | none => c :: dropGroupNames (c == '\\') rest
termination_by s.length
decreasing_by
  · split at _h
    · cases _h
    · exact length_of_afterNamedGroup? _h
  · simp

/-- Every opening parenthesis that begins a plain group written as that of a non-capturing one,
unless a backslash stands before it. -/
def dropPlainGroups (escaped : Bool) : List Char → List Char
  | [] => []
  | c :: rest =>
    if c = '(' ∧ !escaped ∧ rest.head? ≠ some '?' then
      '(' :: '?' :: ':' :: dropPlainGroups false rest
    else c :: dropPlainGroups (c == '\\') rest

/-- The text with its capturing groups written as non-capturing ones. -/
def convertCaptures (s : List Char) : List Char :=
  dropPlainGroups false (dropGroupNames false s)

/-- A constant as it is put into a pattern. -/
def cleanConstant (s : List Char) : List Char :=
  convertCaptures (stripAnchors (stripSlashes s))

/-! ## Pieces of a pattern -/

/-- A character of a pattern, or a reference to a constant. -/
inductive Piece where
  | char (c : Char)
  | reference (name written : List Char)
deriving DecidableEq, Repr

/-- The text of a piece. -/
def Piece.text : Piece → List Char
  | char c => [c]
  | reference _ written => written

/-- The name that a piece refers to. -/
def Piece.name? : Piece → Option (List Char)
  | char _ => none
  | reference name _ => some name

/-- The name in a reference that the text begins with, and the text behind the reference. -/
def reference? (s : List Char) : Option (List Char × List Char) :=
  match s with
  | '#' :: '{' :: inner =>
    let inner := inner.dropWhile isBlank
    match inner.takeWhile isWord, (inner.dropWhile isWord).dropWhile isBlank with
    | c :: name, '}' :: rest => some (c :: name, rest)
    | _, _ => none
  | _ => none

theorem length_of_reference? {s name rest : List Char} (h : reference? s = some (name, rest)) :
    rest.length < s.length := by
  unfold reference? at h
  split at h
  · rename_i inner
    dsimp only at h
    split at h
    · rename_i heq
      have h₁ := (List.dropWhile_suffix isBlank (l := inner)).length_le
      have h₂ := (List.dropWhile_suffix isWord (l := inner.dropWhile isBlank)).length_le
      have h₃ := (List.dropWhile_suffix isBlank
        (l := (inner.dropWhile isBlank).dropWhile isWord)).length_le
      rw [heq] at h₃
      cases h
      simp only [List.length_cons] at h₃ ⊢
      omega
    · cases h
  · cases h

/-- The pieces of a pattern. -/
def pieces (s : List Char) : List Piece :=
  match s with
  | [] => []
  | c :: rest =>
    match _h : reference? (c :: rest) with
    | some (name, after) =>
      .reference name ((c :: rest).take ((c :: rest).length - after.length)) :: pieces after
    | none => .char c :: pieces rest
termination_by s.length
decreasing_by
  · exact length_of_reference? _h
  · simp

/-- The names that a pattern refers to, in order, as often as they are referred to. -/
def references (s : List Char) : List (List Char) :=
  (pieces s).filterMap Piece.name?

/-- The pattern with every reference to `name` replaced by `value`. -/
def putConstant (name value s : List Char) : List Char :=
  (pieces s).flatMap fun piece => if piece.name? = some name then value else piece.text

/-! ## Expansion -/

/-- The cleaned constants of a manifest by name. -/
abbrev Constants := List Char → Option (List Char)

/-- The constants that a mapping defines; values that are no text count as they are displayed. -/
def Constants.ofValue (v : Value) : Constants := fun name =>
  (v.lookup? (String.ofList name)).map fun value => cleanConstant value.display.toList

/-- Puts in the named constants one after the other.  A name that is not defined is put in itself,
with a warning. -/
def expandNames (constants : Constants) :
    (names : List (List Char)) → (s : List Char) → List Char × List Warning
  | [], s => (s, [])
  | name :: names, s =>
    match constants name with
    | some value => expandNames constants names (putConstant name value s)
    | none =>
      let (s, warnings) := expandNames constants names (putConstant name name s)
      (s, .unresolvedConstant (String.ofList name) :: warnings)

/-- Expands the references of a pattern, then those that came in with the constants, for so many
rounds.  When the rounds are used up there is a warning. -/
def expandRounds (constants : Constants) :
    (rounds : Nat) → (s : List Char) → List Char × List Warning
  | 0, s => (s, [.unsettledPattern (String.ofList s)])
  | rounds + 1, s =>
    match references s with
    | [] => (s, [])
    | name :: names =>
      let (s, warnings) := expandNames constants (name :: names) s
      let (s, later) := expandRounds constants rounds s
      (s, warnings ++ later)

/-- The number of rounds in which constants are expanded. -/
def maxRounds : Nat := 16

/-- The pattern with its constants put in, and the warnings on the way. -/
def substituteConstants (constants : Constants) (pattern : String) : String × List Warning :=
  let (s, warnings) := expandRounds constants maxRounds pattern.toList
  (String.ofList s, warnings)

end StepTrace.Manifest
