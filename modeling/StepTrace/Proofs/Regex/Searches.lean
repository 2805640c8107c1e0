import StepTrace.Proofs.Regex.Meaning
import StepTrace.Proofs.Regex.Uncaptured

/-!
# Searching without captures

Making the groups of a pattern non-capturing keeps what it matches: whenever the pattern refers to no
group, sets no flags and has no opening parenthesis in a class, the rewritten one is a pattern, and on
every text it is found where the first one is found (`search?_convertCaptures`).  The rewriting may
miss groups; they make no difference here.
-/

namespace StepTrace.Regex

open Manifest

/-! ## Where a search looks -/

theorem under_of_firstSet? {e : Expr} {flags : Flags} {set : CharSet} (h : e.Under flags)
    (hset : e.firstSet? = some set) : (CharTest.set set).Under flags := by
  induction e with
  | one test =>
    cases test with
    | set s =>
      cases hset
      exact h
    | _ => cases hset
  | seq first second ihfirst _ => exact ihfirst h.1 hset
  | group number body ih => exact ih h hset
  | flagged body ih => exact ih h hset
  | _ => cases hset

/-- A pattern whose classes are chosen as the whole pattern chooses them is looked for everywhere. -/
theorem startSet?_of_under {e : Expr} {flags : Flags} (h : e.Under flags) :
    startSet? flags.ascii e = none := by
  unfold startSet?
  cases hset : e.firstSet? with
  | none => rfl
  | some set =>
    have hother : set.hasOther flags.ascii = false := by
      rw [CharSet.hasOther, List.any_eq_false]
      intro item hitem
      have hitem := (under_of_firstSet? h hset).2 item hitem
      cases item with
      | named category chosen negated =>
        have hchosen : chosen = flags.ascii := hitem
        simp [hchosen]
      | _ => simp
    simp [hother]

/-- The first and the last place of a match. -/
def Match.span (m : Match) : Nat × Nat :=
  (m.first, m.last)

variable {x x' : Regex}

/-- Patterns that are looked for everywhere and run alike are found at the same places. -/
theorem span_searchFrom (text : Array Char) (hstart : x.start = none) (hstart' : x'.start = none)
    (h : RoundAlike (x.expr.run text) (x'.expr.run text)) (left pos : Nat) :
    (searchFrom x' text left pos).map Match.span = (searchFrom x text left pos).map Match.span := by
  have hall : ∀ {x : Regex}, x.start = none → ∀ pos, x.isStart text pos = true := by
    intro x hx pos
    rw [isStart, hx]
  induction left generalizing pos with
  | zero => rfl
  | succ left ih =>
    have hends : SameEnd (x.expr.matchAt? text pos) (x'.expr.matchAt? text pos) :=
      h restAlike_some rfl
    rw [searchFrom, searchFrom, if_pos (hall hstart' pos), if_pos (hall hstart pos)]
    generalize x.expr.matchAt? text pos = o, x'.expr.matchAt? text pos = o' at hends
    cases hends with
    | none => exact ih (pos + 1)
    | some hpos =>
      simp only [Option.map_some, Match.span, Match.ofState, hpos]

/-- A pattern without references, flags and opening parentheses in classes can be rewritten without
its captures, and is found where it was found before. -/
theorem search?_convertCaptures {value : List Char} (h : read (String.ofList value) = .ok x)
    (hfree : x.expr.refers = false) (hparens : (({} : Scan).past value).classParens = 0)
    (hflagged : (({} : Scan).past value).flagged = 0) :
    ∃ x', read (String.ofList (convertCaptures value)) = .ok x' ∧
      ∀ text, (x'.search? text).map Match.span = (x.search? text).map Match.span := by
  rw [← String.toList_ofList (l := value)] at hparens hflagged
  obtain ⟨parts, parts', flags, rfl, halike, hexpr, hstart, hread⟩ :=
    exists_read_converted congruence_sameMatches h hfree rfl hparens (.inr hflagged)
  rw [String.toList_ofList] at hread
  refine ⟨_, hread, fun text => span_searchFrom _ ?_ ?_ ?_ _ _⟩
  · rw [hstart]
    exact startSet?_of_under (Expr.under_sequence.mpr halike.plain)
  · exact startSet?_of_under (Expr.under_sequence.mpr halike.plain')
  · rw [hexpr]
    exact halike.runs _

theorem search?_convertCaptures_letters :
    ∃ x', read (String.ofList (convertCaptures "(a|b)".toList)) = .ok x' ∧
      ∀ text, (x'.search? text).map Match.span =
        (Regex.search?
          { source := "(a|b)"
            expr := .sequence [.group 1 (.one (.set { items := [.char 97, .char 98] }))]
            groupCount := 1 } text).map Match.span :=
  search?_convertCaptures (by decide +kernel) rfl (by decide) (by decide)

end StepTrace.Regex
