import StepTrace.Regex.Syntax

/-!
# Matching

A pattern is matched by trying its alternatives in order and coming back when what follows does not
match.  What follows is a function from states, so `Expr.run` is one recursion on the pattern: it
gives the first end state, in the order of trying, that the rest accepts.

A loop first makes its `least` rounds.  After them a further round is tried only if the place has
moved since the round before began, so at most one further round is empty and the number of rounds
is bounded by the text that is left.

Main definitions: `Expr.run` and `Regex.search?`, the leftmost match.
-/

namespace StepTrace.Regex

/-- A place in the text, and what the groups have captured: the newest capture of a group first. -/
structure State where
  pos : Nat
  captures : List (Nat × Nat × Nat)
deriving DecidableEq, Repr, Inhabited

namespace State

/-- Start and end of what the group has captured last. -/
def span? (s : State) (number : Nat) : Option (Nat × Nat) :=
  s.captures.lookup number

/-- The state one character further on. -/
def step (s : State) : State :=
  { s with pos := s.pos + 1 }

end State

/-- What has to match afterwards. -/
abbrev Rest := State → Option State

/-- One round of a loop: how its body goes on to a rest. -/
abbrev Round := Rest → Rest

/-! ## Loops -/

/-- Exactly `n` rounds. -/
def rounds (round : Round) : Nat → Rest → Rest
  | 0, rest => rest
  | n + 1, rest => fun s => round (rounds round n rest) s

/-- No further round is tried once `most` is used up, or where the round before began. -/
def exhausted (most began : Option Nat) (s : State) : Bool :=
  most == some 0 || began == some s.pos

/-- Further rounds, as many as possible first. -/
def greedyRounds (round : Round) (rest : Rest) : (fuel : Nat) → (most began : Option Nat) → Rest
  | 0, _, _ => rest
  | fuel + 1, most, began => fun s =>
    if exhausted most began s then rest s
    else
      match round (greedyRounds round rest fuel (most.map (· - 1)) (some s.pos)) s with
      | some result => some result
      | none => rest s

/-- Further rounds, as few as possible first. -/
def lazyRounds (round : Round) (rest : Rest) : (fuel : Nat) → (most began : Option Nat) → Rest
  | 0, _, _ => rest
  | fuel + 1, most, began => fun s =>
    match rest s with
    | some result => some result
    | none =>
      if exhausted most began s then none
      else round (lazyRounds round rest fuel (most.map (· - 1)) (some s.pos)) s

/-- The first way in which a round succeeds, and no other. -/
def once (round : Round) : Round := fun rest s =>
  match round some s with
  | some s => rest s
  | none => none

/-- All rounds of a loop on a text of the given size. -/
def loopRounds (size : Nat) (mode : LoopMode) (least : Nat) (most : Option Nat) (round : Round) :
    Round := fun rest s =>
  let more := most.map (· - least)
  let fuel := size + 2
  match mode with
  | .greedy => rounds round least (greedyRounds round rest fuel more none) s
  | .lazy => rounds round least (lazyRounds round rest fuel more none) s
  | .possessive =>
    once (fun rest => rounds (once round) least (greedyRounds (once round) rest fuel more none))
      rest s

/-! ## Loops over one character -/

/-- The place behind the characters from `pos` on that pass the test, at most `limit` of them. -/
def spanEnd (text : Array Char) (test : CharTest) : (limit pos : Nat) → Nat
  | 0, pos => pos
  | limit + 1, pos =>
    match text[pos]? with
    | some c => if test.holds c then spanEnd text test limit (pos + 1) else pos
    | none => pos

/-- The rest from `least + extra` characters on, then from one less, down to `least`. -/
def longestFirst (rest : Rest) (s : State) (least : Nat) : (extra : Nat) → Option State
  | 0 => rest { s with pos := s.pos + least }
  | extra + 1 =>
    match rest { s with pos := s.pos + (least + (extra + 1)) } with
    | some result => some result
    | none => longestFirst rest s least extra

/-- The rest from `taken` characters on, then from one more, for `extra` more. -/
def shortestFirst (rest : Rest) (s : State) : (taken extra : Nat) → Option State
  | taken, 0 => rest { s with pos := s.pos + taken }
  | taken, extra + 1 =>
    match rest { s with pos := s.pos + taken } with
    | some result => some result
    | none => shortestFirst rest s (taken + 1) extra

/-- A loop whose body is one character: its rounds are counted instead of run. -/
def loopSpan (text : Array Char) (mode : LoopMode) (least : Nat) (most : Option Nat)
    (test : CharTest) : Round := fun rest s =>
  let left := text.size - s.pos
  let limit := match most with
    | some m => min m left
    | none => left
  let count := spanEnd text test limit s.pos - s.pos
  if count < least then none
  else
    match mode with
    | .greedy => longestFirst rest s least (count - least)
    | .lazy => shortestFirst rest s least (count - least)
    | .possessive => rest { s with pos := s.pos + count }

/-! ## Places -/

/-- Is there a word character at the index? -/
def wordAt (text : Array Char) (ascii : Bool) (i : Nat) : Bool :=
  match text[i]? with
  | some c => Category.word.holds ascii c
  | none => false

/-- Does a word begin or end at the place? -/
def atBoundary (text : Array Char) (ascii : Bool) (pos : Nat) : Bool :=
  (0 < pos && wordAt text ascii (pos - 1)) != wordAt text ascii pos

/-- Does the place satisfy the anchor?  On an empty text neither kind of word anchor does. -/
def Anchor.holds (text : Array Char) (pos : Nat) : Anchor → Bool
  | textStart => pos == 0
  | caret multiline => pos == 0 || (multiline && text[pos - 1]? == some '\n')
  | textEnd => pos == text.size
  | dollar multiline =>
    pos == text.size || ((multiline || pos + 1 == text.size) && text[pos]? == some '\n')
  | wordBoundary ascii => text.size != 0 && atBoundary text ascii pos
  | notWordBoundary ascii => text.size != 0 && !atBoundary text ascii pos

/-- Do the `length` characters from `first` on stand again from `pos` on? -/
def repeatsAt (text : Array Char) (folding : Folding) : (length first pos : Nat) → Bool
  | 0, _, _ => true
  | length + 1, first, pos =>
    match text[first]?, text[pos]? with
    | some c, some d => folding.same c d && repeatsAt text folding length (first + 1) (pos + 1)
    | _, _ => false

/-! ## Patterns -/

namespace Expr

/-- Matches the pattern from a state on: the first end state, in the order of trying, that the rest
accepts, as the rest leaves it. -/
def run (text : Array Char) : Expr → Round
  | empty => fun rest => rest
  | one test => fun rest s =>
    match text[s.pos]? with
    | some c => if test.holds c then rest s.step else none
    | none => none
  | seq first second => fun rest => run text first (run text second rest)
  | either first second => fun rest s =>
    match run text first rest s with
    | some result => some result
    | none => run text second rest s
  | group number body => fun rest s =>
    run text body
      (fun t => rest { t with captures := (number, s.pos, t.pos) :: t.captures }) s
  | same number folding => fun rest s =>
    match s.span? number with
    | some (first, last) =>
      if repeatsAt text folding (last - first) first s.pos then
        rest { s with pos := s.pos + (last - first) }
      else none
    | none => none
  | flagged body => run text body
  | loop mode least most (one test) => loopSpan text mode least most test
  | loop mode least most body => loopRounds text.size mode least most (run text body)
  | ahead negated body => fun rest s =>
    match run text body some s, negated with
    | some t, false => rest { s with captures := t.captures }
    | none, true => rest s
    | _, _ => none
  | behind negated width body => fun rest s =>
    if s.pos < width then (if negated then rest s else none)
    else
      match run text body some { s with pos := s.pos - width }, negated with
      | some t, false => rest { s with captures := t.captures }
      | none, true => rest s
      | _, _ => none
  | atomic body => once (run text body)
  | anchor place => fun rest s => if place.holds text s.pos then rest s else none
  | ifGroup number yes no => fun rest s =>
    if (s.span? number).isSome then run text yes rest s else run text no rest s

/-- The first end state of the pattern from `pos` on. -/
def matchAt? (text : Array Char) (e : Expr) (pos : Nat) : Option State :=
  e.run text some ⟨pos, []⟩

end Expr

end StepTrace.Regex

namespace StepTrace

/-- A pattern that can be searched for. -/
structure Regex where
  /-- The text of the pattern. -/
  source : String
  expr : Regex.Expr
  groupCount : Nat
  /-- A match is looked for only where a character of this set stands, if there is one. -/
  start : Option Regex.CharSet := none
deriving DecidableEq, Repr, Inhabited

namespace Regex

/-- A place where a pattern matches. -/
structure Match where
  first : Nat
  last : Nat
  /-- What each group has captured, absent for a group that took no part. -/
  groups : List (Option String)
deriving DecidableEq, Repr, Inhabited

/-- The text between two indices. -/
def textBetween (text : Array Char) (first last : Nat) : String :=
  String.ofList (text.extract first last).toList

/-- The match that an end state stands for. -/
def Match.ofState (r : Regex) (text : Array Char) (first : Nat) (s : State) : Match where
  first
  last := s.pos
  groups := (List.range r.groupCount).map fun i =>
    (s.span? (i + 1)).map fun (a, b) => textBetween text a b

/-- Is a match looked for at the place? -/
def isStart (r : Regex) (text : Array Char) (pos : Nat) : Bool :=
  match r.start with
  | none => true
  | some set => text[pos]?.any set.contains

/-- The first match that begins at `pos` or behind it, with `left` places to try. -/
def searchFrom (r : Regex) (text : Array Char) : (left pos : Nat) → Option Match
  | 0, _ => none
  | left + 1, pos =>
    if r.isStart text pos then
      match r.expr.matchAt? text pos with
      | some s => some (.ofState r text pos s)
      | none => searchFrom r text left (pos + 1)
    else searchFrom r text left (pos + 1)

/-- The leftmost match in a text. -/
def search? (r : Regex) (text : String) : Option Match :=
  let chars := text.toList.toArray
  searchFrom r chars (chars.size + 1) 0

/-- Does the pattern match anywhere in the text? -/
def occursIn (r : Regex) (text : String) : Bool :=
  (r.search? text).isSome

end Regex

end StepTrace
