import StepTrace.Text.Classes

/-!
# Pieces of a text

Trimming, splitting and replacing on lists of characters.  All of them are single passes from left
to right; `replaceAll` counts down the characters of an occurrence that are still to be passed, so
that occurrences never overlap.
-/

namespace StepTrace.Text

/-! ## Ends of a text -/

/-- The text without the blanks at its end. -/
def trimRight (s : List Char) : List Char :=
  (s.reverse.dropWhile isBlank).reverse

/-- The text without the blanks at its two ends. -/
def trim (s : List Char) : List Char :=
  trimRight (s.dropWhile isBlank)

/-- What follows `head` in `s`, if `s` begins with it. -/
def after? : (head s : List Char) → Option (List Char)
  | [], s => some s
  | _ :: _, [] => none
  | h :: head, c :: s => if h = c then after? head s else none

theorem after?_eq_some_iff {head s rest : List Char} :
    after? head s = some rest ↔ s = head ++ rest := by
  induction head generalizing s with
  | nil => simp [after?]
  | cons h head ih =>
    cases s with
    | nil => simp [after?]
    | cons c s =>
      by_cases hc : h = c
      · simp [after?, hc, ih]
      · simp [after?, hc, Ne.symm hc]

/-! ## Replacing -/

/-- Passes over `skip` characters, then replaces every occurrence of `old` by `new`.  An occurrence
is taken at the first place where it stands; the search goes on behind it. -/
def replaceFrom (old new : List Char) : (skip : Nat) → List Char → List Char
  | _, [] => []
  | skip + 1, _ :: s => replaceFrom old new skip s
  | 0, c :: s =>
    if old.isPrefixOf (c :: s) then new ++ replaceFrom old new (old.length - 1) s
    else c :: replaceFrom old new 0 s

/-- The text with every occurrence of the non-empty `old` replaced by `new`. -/
def replaceAll (old new s : List Char) : List Char :=
  replaceFrom old new 0 s

/-! ## Splitting -/

/-- Cuts a text at every `sep`; there is one piece more than there are separators. -/
def splitAt (sep : Char) : List Char → List (List Char)
  | [] => [[]]
  | c :: s =>
    match splitAt sep s with
    | [] => [[c]]
    | piece :: pieces => if c = sep then [] :: piece :: pieces else (c :: piece) :: pieces

theorem splitAt_ne_nil (sep : Char) (s : List Char) : splitAt sep s ≠ [] := by
  induction s with
  | nil => simp [splitAt]
  | cons c s _ =>
    simp only [splitAt]
    split
    · simp
    · split <;> simp

/-- The text with every kind of line end written as a line feed. -/
def unifyNewlines : List Char → List Char
  | [] => []
  | '\r' :: '\n' :: s => '\n' :: unifyNewlines s
  | '\r' :: s => '\n' :: unifyNewlines s
  | c :: s => c :: unifyNewlines s

/-! ## The same on strings -/

/-- Does the text begin with the character? -/
def beginsWith (c : Char) (s : String) : Bool :=
  s.toList.head? == some c

/-- The text with every occurrence of the non-empty `old` replaced by `new`. -/
def replace (old new s : String) : String :=
  String.ofList (replaceAll old.toList new.toList s.toList)

end StepTrace.Text
