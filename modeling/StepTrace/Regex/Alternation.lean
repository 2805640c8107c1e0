import StepTrace.Regex.Syntax

/-!
# Alternatives

Alternatives are joined as parts of one sequence.  The parts that all of them begin with come out in
front.  If what is left of each is one character that the alternative asks for by itself or by a
class, the alternatives are one class; otherwise they are tried in order.

Both steps keep what is matched, except that a class which ignores case is narrower beyond the basic
plane than the letters in it.

Main definition: `Expr.joined`.
-/

namespace StepTrace.Regex.Expr

/-- Is a part the same part wherever it is written alike?  One with a body of its own is not. -/
def isSimple : Expr → Bool
  | one _ | same _ _ | anchor _ => true
  | _ => false

/-- The parts that all alternatives begin with, and what is left of each. -/
def pullCommon : (first : List Expr) → (others : List (List Expr)) →
    List Expr × List (List Expr)
  | [], others => ([], [] :: others)
  | e :: first, others =>
    if e.isSimple && others.all fun parts => parts.head? == some e then
      let (common, left) := pullCommon first (others.map List.tail)
      (e :: common, left)
    else ([], (e :: first) :: others)

/-- The entries that an alternative of one character adds to a class. -/
def classItems? : List Expr → Option (List SetItem)
  | [one (.letter code false _)] => some [.char code]
  | [one (.set s)] => if s.negated then none else some s.items
  | _ => none

/-- The class that stands for all alternatives, if each is one character. -/
def asClass? (folding : Folding) (alternatives : List (List Expr)) : Option CharSet := do
  let items ← alternatives.mapM classItems?
  return { items := items.flatten.eraseDups, folding }

/-- The alternatives in order. -/
def inOrder : List (List Expr) → Expr
  | [] => empty
  | [parts] => sequence parts
  | parts :: rest => either (sequence parts) (inOrder rest)

/-- Alternatives as parts of one sequence, where letters are compared as `folding` says. -/
def joined (folding : Folding) : List (List Expr) → List Expr
  | [] => []
  | [parts] => parts
  | first :: others =>
    let (common, left) := pullCommon first others
    let rest :=
      match asClass? folding left with
      | some set => one (.set set)
      | none => inOrder left
    common ++ [rest]

end StepTrace.Regex.Expr
