import StepTrace.Regex.CharSet

/-!
# Patterns

The syntax tree of a pattern.  Flags have been resolved when the tree was read: every set of
characters, anchor and back-reference says itself how it compares.
-/

namespace StepTrace.Regex

/-- How a loop chooses the number of its rounds. -/
inductive LoopMode where
  /-- As many rounds as possible first. -/
  | greedy
  /-- As few rounds as possible first. -/
  | lazy
  /-- As many rounds as possible, without coming back to fewer. -/
  | possessive
deriving DecidableEq, Repr, Inhabited

/-- Conditions on a place in the text. -/
inductive Anchor where
  | textStart
  /-- The start of the text, or with `multiline` of any line. -/
  | caret (multiline : Bool)
  | textEnd
  /-- The end of the text, or the place before a line feed that ends it; with `multiline` the end of
  any line. -/
  | dollar (multiline : Bool)
  /-- A place between a word character and another one. -/
  | wordBoundary (ascii : Bool)
  | notWordBoundary (ascii : Bool)
deriving DecidableEq, Repr, Inhabited

/-- A pattern. -/
inductive Expr where
  /-- The empty text. -/
  | empty
  /-- One character that passes a test. -/
  | one (test : CharTest)
  | seq (first second : Expr)
  /-- The first alternative, or else the second. -/
  | either (first second : Expr)
  /-- A capturing group. -/
  | group (number : Nat) (body : Expr)
  /-- A group that captures nothing and has flags of its own. -/
  | flagged (body : Expr)
  /-- The text that a group has captured. -/
  | same (number : Nat) (folding : Folding)
  /-- `least` rounds of the body and up to `most`. -/
  | loop (mode : LoopMode) (least : Nat) (most : Option Nat) (body : Expr)
  /-- The body has to match from here on, or with `negated` must not. -/
  | ahead (negated : Bool) (body : Expr)
  /-- The body has to match from `width` characters back, or with `negated` must not. -/
  | behind (negated : Bool) (width : Nat) (body : Expr)
  /-- The first way in which the body matches, and no other. -/
  | atomic (body : Expr)
  | anchor (place : Anchor)
  /-- `yes` if the group has captured something, `no` otherwise. -/
  | ifGroup (number : Nat) (yes no : Expr)
deriving DecidableEq, Repr, Inhabited

/-- The least and the greatest number of characters that a pattern can match; the greatest is
absent when there is no bound. -/
structure Width where
  least : Nat
  most : Option Nat
deriving DecidableEq, Repr, Inhabited

namespace Width

def exactly (n : Nat) : Width := ⟨n, some n⟩

def add (a b : Width) : Width :=
  ⟨a.least + b.least, do return (← a.most) + (← b.most)⟩

def join (a b : Width) : Width :=
  ⟨min a.least b.least, do return max (← a.most) (← b.most)⟩

/-- `least` to `most` rounds; no rounds, or rounds without width, have no width. -/
def repeated (least : Nat) (most : Option Nat) (w : Width) : Width where
  least := w.least * least
  most :=
    match w.most, most with
    | some 0, _ => some 0
    | _, some 0 => some 0
    | some n, some k => some (n * k)
    | _, _ => none

end Width

namespace Expr

/-- The width of a pattern, given the widths of the groups that it refers back to. -/
def width (groups : Nat → Width) : Expr → Width
  | empty => .exactly 0
  | one _ => .exactly 1
  | seq first second => (first.width groups).add (second.width groups)
  | either first second => (first.width groups).join (second.width groups)
  | group _ body | flagged body => body.width groups
  | same number _ => groups number
  | loop _ least most body => .repeated least most (body.width groups)
  | ahead _ _ => .exactly 0
  | behind _ _ _ => .exactly 0
  | atomic body => body.width groups
  | anchor _ => .exactly 0
  | ifGroup _ yes no => (yes.width groups).join (no.width groups)

/-- The number of capturing groups in a pattern. -/
def groupCount : Expr → Nat
  | empty | one _ | same _ _ | anchor _ => 0
  | seq first second | either first second | ifGroup _ first second =>
    first.groupCount + second.groupCount
  | group _ body => body.groupCount + 1
  | flagged body | loop _ _ _ body | ahead _ body | behind _ _ body | atomic body =>
    body.groupCount

/-- Does a loop stand anywhere in the pattern? -/
def hasLoop : Expr → Bool
  | empty | one _ | same _ _ | anchor _ => false
  | seq first second | either first second | ifGroup _ first second =>
    first.hasLoop || second.hasLoop
  | loop _ _ _ _ => true
  | group _ body | flagged body | ahead _ body | behind _ _ body | atomic body => body.hasLoop

/-- The parts one after the other. -/
def sequence : List Expr → Expr
  | [] => empty
  | [e] => e
  | e :: rest => seq e (sequence rest)

/-- The set that the first character of a match has to be in, if the pattern begins with a set. -/
def firstSet? : Expr → Option CharSet
  | one (.set s) => some s
  | seq first _ => first.firstSet?
  | group _ body | flagged body => body.firstSet?
  | _ => none

end Expr

/-- Why a pattern was refused. -/
inductive Refusal where
  | malformed
  /-- A repetition count of `2 ^ 32 - 1` or more. -/
  | repetitionTooLarge
  /-- ASCII and Unicode classes were both asked for. -/
  | conflictingFlags
deriving DecidableEq, Repr, Inhabited

end StepTrace.Regex
