import StepTrace.Text.Classes
import StepTrace.Text.LetterCase

/-!
# Character sets of a pattern

What a pattern says about a single character: a letter, a class in brackets, a dot, or an escape
such as `\d`.  A letter or a class that ignores case takes a character when it takes some case
variant of it; `variants` lists them.  Beyond the basic plane, which ends at `basicLimit`, classes
are narrower than letters: there a class compares the lower-case form of a character with the code
points that it lists, as they are written.

Main definition: `CharTest.holds`.
-/

namespace StepTrace.Regex

open Text

/-- How letters are compared. -/
inductive Folding where
  | exact
  | ascii
  | unicode
deriving DecidableEq, Repr, Inhabited

namespace Folding

/-- The form in which a letter is compared. -/
def lower : Folding → Nat → Nat
  | exact, c => c
  | ascii, c => if 65 ≤ c ∧ c ≤ 90 then c + 32 else c
  | unicode, c => lowerCode c

/-- The code points that count as the same letter as `c`. -/
def variants : Folding → Nat → List Nat
  | exact, c => [c]
  | ascii, c =>
    if 65 ≤ c ∧ c ≤ 90 then [c, c + 32] else if 97 ≤ c ∧ c ≤ 122 then [c, c - 32] else [c]
  | unicode, c =>
    let l := lowerCode c
    codesWithLower l ++ (siblingsOf l).flatMap codesWithLower

/-- Do two characters count as the same? -/
def same (f : Folding) (c d : Char) : Bool :=
  f.lower c.toNat == f.lower d.toNat

/-- Has the code point another form of upper or lower case? -/
def isCased : Folding → Nat → Bool
  | exact, _ => false
  | ascii, c => (65 ≤ c && c ≤ 90) || (97 ≤ c && c ≤ 122)
  | unicode, c => lowerCode c != c || upperCode c != c

end Folding

/-- The named classes of characters. -/
inductive Category where
  | digit
  | blank
  | word
deriving DecidableEq, Repr, Inhabited

/-- Membership in a named class; `ascii` restricts it to the first 128 characters. -/
def Category.holds (ascii : Bool) : Category → Char → Bool
  | digit, c => if ascii then c.isDigit else isDigit c
  | blank, c => if ascii then isAsciiBlank c else isBlank c
  | word, c => if ascii then isAsciiWord c else isWord c

/-- One entry of a class in brackets. -/
inductive SetItem where
  | char (code : Nat)
  | range (first last : Nat)
  | named (category : Category) (ascii negated : Bool)
deriving DecidableEq, Repr, Inhabited

/-- The last code point of the basic plane. -/
def basicLimit : Nat := 0xFFFF

/-- Does a code point lie in a range? -/
def isWithin (first last c : Nat) : Bool :=
  first ≤ c && c ≤ last

/-- Does the entry hold `c`, given the case variants of `c`?  Where case is ignored, a code point
beyond the basic plane holds the characters with that lower-case form, and a range that ends there
holds a character also by the upper case of its lower-case form. -/
def SetItem.holds (folding : Folding) (c : Char) (variants : List Nat) : SetItem → Bool
  | char code =>
    if folding = .exact ∨ code ≤ basicLimit then variants.contains code
    else folding.lower c.toNat == code
  | range first last =>
    variants.any (isWithin first last)
      || (folding != .exact && basicLimit < last
        && isWithin first last (upperCode (folding.lower c.toNat)))
  | named category ascii negated => category.holds ascii c != negated

/-- A set of characters: what one of the entries holds, or with `negated` everything else. -/
structure CharSet where
  items : List SetItem
  negated : Bool := false
  folding : Folding := .exact
deriving DecidableEq, Repr, Inhabited

namespace CharSet

/-- Membership. -/
def contains (s : CharSet) (c : Char) : Bool :=
  let variants := s.folding.variants c.toNat
  s.items.any (·.holds s.folding c variants) != s.negated

/-- Is case of no matter to the entry? -/
def isUncased (folding : Folding) : SetItem → Bool
  | .char code => !folding.isCased code
  | .range first last =>
    folding = .exact || (last ≤ basicLimit
      && (List.range (last + 1 - first)).all fun i => !folding.isCased (first + i))
  | .named _ _ _ => true

/-- Does a named class in the set differ in its choice of alphabet? -/
def hasOther (ascii : Bool) (s : CharSet) : Bool :=
  s.items.any fun
    | .named _ chosen _ => chosen != ascii
    | _ => false

/-- The set with the given choice of alphabet for its named classes. -/
def withAlphabet (ascii : Bool) (s : CharSet) : CharSet :=
  { s with items := s.items.map fun
    | .named category _ negated => .named category ascii negated
    | item => item }

end CharSet

/-- What a pattern says about one character. -/
inductive CharTest where
  /-- Any character, line feeds only if so said. -/
  | any (lineFeeds : Bool)
  /-- The letter, or with `negated` any other character. -/
  | letter (code : Nat) (negated : Bool) (folding : Folding)
  | set (s : CharSet)
deriving DecidableEq, Repr, Inhabited

/-- Does the character pass the test? -/
def CharTest.holds (c : Char) : CharTest → Bool
  | any lineFeeds => lineFeeds || c != '\n'
  | letter code negated folding => (folding.variants c.toNat).contains code != negated
  | set s => s.contains c

end StepTrace.Regex
