import StepTrace.Gherkin.Document
import StepTrace.Gherkin.Line

/-!
# The grammar of feature texts

What a line may be depends on the place where it stands, and on nothing else than the place and the
next title line below.  `Place.follow` says for each place which lines may follow, what they give,
and what place comes after.

Under a title, and as long as nothing else has come, whatever may not follow otherwise is a line of
the description.  Tags belong to the examples or to the scenario whose title line is next below; if
neither may come, they belong to a rule.
-/

namespace StepTrace.Gherkin

/-- What lines give, in order. -/
inductive Item where
  | comment (line : Nat) (text : String)
  | title (heading : Heading) (title : Title) (tags : List TagNode)
  /-- A line of a description. -/
  | words (text : String)
  | step (line : Nat) (keyword text : String)
  | row (cells : List String)
  /-- The beginning of a doc string. -/
  | docString
  /-- A line of a doc string. -/
  | docLine (text : String)
deriving DecidableEq, Repr, Inhabited

/-- What stands below a step so far: at most one table and one doc string, in either order. -/
inductive StepStage where
  /-- Nothing. -/
  | bare
  /-- Rows of a table with so many columns, and perhaps a doc string before them. -/
  | table (width : Nat) (belowDocString : Bool)
  /-- A doc string, and no table before it. -/
  | documented
  /-- A table and then a doc string, after which nothing may come. -/
  | full
deriving DecidableEq, Repr, Inhabited

namespace StepStage

/-- The stage after a doc string, where one may come. -/
def afterDocString? : StepStage → Option StepStage
  | bare => some documented
  | table _ false => some full
  | table _ true | documented | full => none

/-- The stage after a table row with so many cells, where one may come.  All rows of a table have
the same number of cells. -/
def afterRow? (count : Nat) : StepStage → Option StepStage
  | bare => some (table count false)
  | documented => some (table count true)
  | table width below => if count = width then some (table width below) else none
  | full => none

end StepStage

/-- Where a line stands. -/
inductive Place where
  | start
  | afterLanguage
  /-- After tags of the feature. -/
  | featureTags (tags : List TagNode)
  /-- Under a title line, or in its description. -/
  | title (heading : Heading) (described : Bool)
  /-- Below a step of a background or a scenario. -/
  | step (heading : Heading) (stage : StepStage)
  /-- In a doc string whose fence is moved in by `indent`; `next` is what stands below the step once
  the doc string is closed. -/
  | docString (heading : Heading) (next : StepStage) (fence : Fence) (indent : Nat)
  /-- In the table of examples. -/
  | examplesTable (width : Nat)
  /-- After tags of what a title line of the heading opens. -/
  | tags (heading : Heading) (tags : List TagNode)
deriving DecidableEq, Repr, Inhabited

/-- What comes of a line that may stand where it stands: the place after it, and what it gives. -/
abbrev Reading := Option (Place × List Item)

namespace Place

/-- May the text end here? -/
def mayEnd : Place → Bool
  | start | title _ _ | step _ _ | examplesTable _ => true
  | afterLanguage | featureTags _ | docString _ _ _ _ | tags _ _ => false

/-- The heading of the title that the place is under. -/
def heading? : Place → Option Heading
  | title heading _ => some heading
  | step heading _ => some heading
  | docString heading _ _ _ => some heading
  | examplesTable _ => some .examples
  | _ => none

/-- The comment that a line is. -/
def commentOf (l : Line) : Item :=
  .comment l.number l.whole

/-- The place under the title that a line opens. -/
def opened (heading : Heading) (l : Line) (keyword name : String) (tags : List TagNode) :
    Reading :=
  some (.title heading false, [.title heading { line := l.number, keyword, name } tags])

/-- The tags of a tag line. -/
def tagsOf? (l : Line) : Option (List TagNode) :=
  l.tagNames?.map fun names => names.map fun name => ⟨l.number, name⟩

/-! ## Tags -/

/-- Does the line lie between tags and the title line that they belong to? -/
def liesBetween (l : Line) : Bool :=
  l.isEmpty || l.isComment || (l.isTags && l.tagNames?.isSome)

/-- The heading that the tags above the lines belong to, by the place where they stand. -/
def tagged (place : Place) (below : List Line) : Heading :=
  let next := (below.dropWhile liesBetween).head?.bind fun l => l.heading?.map (·.1)
  if next = some .scenario then .scenario
  else if next = some .examples ∧
      (place.heading? = some .scenario ∨ place.heading? = some .examples) then .examples
  else .rule

/-- A line after tags, or at the beginning: more tags or the title line that is waited for.  `more`
is the place after more tags. -/
def await (place : Place) (heading : Heading) (tags : List TagNode)
    (more : List TagNode → Place) (l : Line) : Reading :=
  if l.isEmpty then some (place, [])
  else if l.isComment then some (place, [commentOf l])
  else if l.isTags then (tagsOf? l).map fun new => (more (tags ++ new), [])
  else
    match l.heading? with
    | some (found, keyword, name) =>
      if found = heading then opened heading l keyword name tags else none
    | none => none

/-! ## Lines under titles -/

/-- May a title line with the heading follow? -/
def admits (place : Place) : Heading → Bool
  | .feature => false
  | .rule | .scenario => true
  | .background =>
    match place with
    | .title .feature _ | .title .rule _ => true
    | _ => false
  | .examples => place.heading? = some .scenario || place.heading? = some .examples

/-- May a step follow?  If so, it belongs under this heading. -/
def stepHeading? (place : Place) : Option Heading :=
  place.heading?.filter fun heading => heading = .background ∨ heading = .scenario

/-- The place after a table row with so many cells, where one may come. -/
def afterRow? (place : Place) (count : Nat) : Option Place :=
  match place with
  | .step heading stage => (stage.afterRow? count).map (.step heading)
  | .title .examples _ => some (.examplesTable count)
  | .examplesTable width => if count = width then some place else none
  | _ => none

/-- A line that may not follow in any other way: under a title, a line of the description. -/
def otherwise (place : Place) (l : Line) : Reading :=
  match place with
  | .title heading _ => some (.title heading true, [.words l.whole])
  | _ => none

/-- The place in a doc string that a line begins, where one may come. -/
def docStringAt? (place : Place) (l : Line) : Option Place := do
  let fence ← l.fence?
  match place with
  | .step heading stage =>
    let next ← stage.afterDocString?
    return .docString heading next fence l.indent
  | _ => none

/-- A title line, a step, the beginning of a doc string, or something else. -/
def bodyLine (place : Place) (l : Line) : Reading :=
  match l.heading? with
  | some (heading, keyword, name) =>
    if place.admits heading then opened heading l keyword name [] else otherwise place l
  | none =>
    match l.step?, place.stepHeading?, docStringAt? place l with
    | some (keyword, text), some heading, _ =>
      some (.step heading .bare, [.step l.number keyword text])
    | _, _, some inside => some (inside, [.docString])
    | _, _, none => otherwise place l

/-- An empty line belongs to a description that has begun. -/
def emptyLine (place : Place) (l : Line) : Reading :=
  match place with
  | .title _ true => otherwise place l
  | _ => some (place, [])

/-- A comment may stand inside a description. -/
def commentLine (place : Place) (l : Line) : Reading :=
  match place with
  | .title heading _ => some (.title heading true, [commentOf l])
  | _ => some (place, [commentOf l])

/-- A tag line. -/
def tagLine (place : Place) (l : Line) (below : List Line) : Reading :=
  (tagsOf? l).map fun found => (.tags (place.tagged below) found, [])

/-- A table row. -/
def rowLine (place : Place) (l : Line) : Reading :=
  match place.afterRow? l.cells.length with
  | some place => some (place, [.row l.cells])
  | none => otherwise place l

/-- A line under a title. -/
def under (place : Place) (l : Line) (below : List Line) : Reading :=
  if l.isEmpty then emptyLine place l
  else if l.isComment then commentLine place l
  else if l.isTags then tagLine place l below
  else if l.isRow then rowLine place l
  else bodyLine place l

/-- What comes of a line at a place, given the lines below it. -/
def follow (place : Place) (l : Line) (below : List Line) : Reading :=
  match place with
  | .start =>
    match l.language? with
    | some language => if language = "en" then some (.afterLanguage, []) else none
    | none => await place .feature [] .featureTags l
  | .afterLanguage => await place .feature [] .featureTags l
  | .featureTags found => await place .feature found .featureTags l
  | .tags heading found => await place heading found (.tags heading) l
  | .docString heading next fence indent =>
    if l.begins fence.text then some (.step heading next, [])
    else some (place, [.docLine (l.inside fence indent)])
  | _ => place.under l below

end Place

end StepTrace.Gherkin
