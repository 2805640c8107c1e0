import StepTrace.Text.Substring

/-!
# Lines of a feature text

A feature text is read line by line; what a line can be follows from how it begins, after the blanks
in front.  Everything here looks at one line alone: whether it may stand where it stands is settled
in `Gherkin.Place`.

Main definitions: `Line.heading?`, `Line.step?`, `Line.tagNames?` and `Line.cells`.
-/

namespace StepTrace.Gherkin

open Text

/-- A line, without its line feed. -/
structure Line where
  number : Nat
  text : List Char
deriving DecidableEq, Repr, Inhabited

/-- The lines of a text.  A line feed at the very end begins no line. -/
def linesOf (s : List Char) : List Line :=
  let pieces := splitAt '\n' s
  let pieces := if pieces.getLast? = some [] then pieces.dropLast else pieces
  pieces.zipIdx.map fun (text, i) => ⟨i + 1, text⟩

/-- What a title line opens. -/
inductive Heading where
  | feature
  | rule
  | background
  | scenario
  | examples
deriving DecidableEq, Repr, Inhabited

namespace Heading

def all : List Heading :=
  [feature, rule, background, scenario, examples]

/-- The keywords of a heading. -/
def keywords : Heading → List String
  | feature => ["Feature", "Business Need", "Ability"]
  | rule => ["Rule"]
  | background => ["Background"]
  | scenario => ["Example", "Scenario", "Scenario Outline", "Scenario Template"]
  | examples => ["Examples", "Scenarios"]

end Heading

/-- The keywords of steps, with the blank that separates them from the text. -/
def stepKeywords : List String :=
  ["* ", "Given ", "When ", "Then ", "And ", "But "]

/-- What encloses a doc string. -/
inductive Fence where
  | quotes
  | backticks
deriving DecidableEq, Repr, Inhabited

namespace Fence

/-- The character of which a fence has three. -/
def mark : Fence → Char
  | quotes => '"'
  | backticks => '\x60'

/-- The fence as it is written. -/
def text (f : Fence) : List Char :=
  [f.mark, f.mark, f.mark]

/-- The fence as it is written inside a doc string that it encloses. -/
def escaped (f : Fence) : List Char :=
  ['\\', f.mark, '\\', f.mark, '\\', f.mark]

end Fence

/-- The text without carriage returns and line feeds at its end. -/
def withoutLineEnd (s : List Char) : List Char :=
  (s.reverse.dropWhile fun c => c = '\r' ∨ c = '\n').reverse

namespace Line

/-- The line from its first character that is no blank. -/
def body (l : Line) : List Char :=
  l.text.dropWhile isBlank

/-- The number of blanks in front. -/
def indent (l : Line) : Nat :=
  l.text.length - l.body.length

/-- Is there nothing but blanks on the line? -/
def isEmpty (l : Line) : Bool :=
  l.body.isEmpty

/-- Does the line begin with the text? -/
def begins (l : Line) (head : List Char) : Bool :=
  head.isPrefixOf l.body

def isComment (l : Line) : Bool := l.begins ['#']

def isTags (l : Line) : Bool := l.begins ['@']

def isRow (l : Line) : Bool := l.begins ['|']

/-- The whole line, as a comment or a description keeps it. -/
def whole (l : Line) : String :=
  String.ofList (withoutLineEnd l.text)

/-! ## Titles and steps -/

/-- The heading of a title line, with its keyword and the title. -/
def heading? (l : Line) : Option (Heading × String × String) :=
  Heading.all.findSome? fun heading =>
    heading.keywords.findSome? fun keyword =>
      (after? (keyword.toList ++ [':']) l.body).map fun title =>
        (heading, keyword, String.ofList (trim title))

/-- The keyword and the text of a step line. -/
def step? (l : Line) : Option (String × String) :=
  stepKeywords.findSome? fun keyword =>
    (after? keyword.toList l.body).map fun text => (keyword, String.ofList (trim text))

/-! ## Languages -/

/-- A character of the name of a language. -/
def isLanguageChar (c : Char) : Bool :=
  c.isAlpha || c == '-' || c == '_'

/-- The language that the line sets. -/
def language? (l : Line) : Option String := do
  let rest ← after? ['#'] l.body
  let rest ← after? "language".toList (rest.dropWhile isBlank)
  let rest ← after? [':'] (rest.dropWhile isBlank)
  let name := trim rest
  if !name.isEmpty && name.all isLanguageChar then some (String.ofList name) else none

/-! ## Tags -/

/-- The text up to a number sign that follows a blank. -/
def beforeRemark : List Char → List Char
  | [] => []
  | c :: s =>
    match s with
    | '#' :: _ => if isBlank c then [] else c :: beforeRemark s
    | _ => c :: beforeRemark s

/-- The tags of a tag line, if there is no blank inside any of them.  Each sign begins a tag, also
where nothing but blanks comes before the next sign. -/
def tagNames? (l : Line) : Option (List String) :=
  let pieces := ((splitAt '@' (beforeRemark (trim l.body))).drop 1).map trim
  if pieces.any fun piece => piece.any isBlank then none
  else some (pieces.map fun piece => String.ofList ('@' :: piece))

/-! ## Table rows -/

/-- A blank that is trimmed from a cell: line feeds come from escapes and stay. -/
def isCellBlank (c : Char) : Bool :=
  isBlank c && c != '\n'

/-- The cell without the blanks at its end, and without those before a last line feed. -/
def trimCellEnd (s : List Char) : List Char :=
  match s.reverse with
  | '\n' :: before => (before.dropWhile isCellBlank).reverse ++ ['\n']
  | reversed => (reversed.dropWhile isCellBlank).reverse

/-- The cell without blanks around it. -/
def trimCell (s : List Char) : List Char :=
  trimCellEnd (s.dropWhile isCellBlank)

/-- The pieces between unescaped bars, with the escapes resolved; `piece` is the piece so far, in
reverse.  A backslash at the end escapes nothing and stands for itself. -/
def rowPieces : (piece : List Char) → List Char → List (List Char)
  | piece, [] => [piece.reverse]
  | piece, '\\' :: c :: s =>
    if c = 'n' then rowPieces ('\n' :: piece) s
    else if c = '|' ∨ c = '\\' then rowPieces (c :: piece) s
    else rowPieces (c :: '\\' :: piece) s
  | piece, '|' :: s => piece.reverse :: rowPieces [] s
  | piece, c :: s => rowPieces (c :: piece) s

/-- The cells of a table row: what stands between the first and the last bar. -/
def cells (l : Line) : List String :=
  ((rowPieces [] (trim l.body)).drop 1).dropLast.map fun piece => String.ofList (trimCell piece)

/-! ## Doc strings -/

/-- The fence that the line begins with. -/
def fence? (l : Line) : Option Fence :=
  [Fence.quotes, Fence.backticks].find? fun fence => l.begins fence.text

/-- The line inside a doc string whose fence is moved in by `indent`: as many blanks are taken off,
all of them if there are fewer. -/
def inside (l : Line) (fence : Fence) (indent : Nat) : String :=
  let text := if indent ≤ l.indent then l.text.drop indent else l.body
  String.ofList (withoutLineEnd (replaceAll fence.escaped fence.text text))

end Line

end StepTrace.Gherkin
