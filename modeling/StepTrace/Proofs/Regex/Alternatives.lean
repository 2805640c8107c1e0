import Mathlib.Data.List.Forall2
import StepTrace.Regex.Alternation
import StepTrace.Proofs.Regex.Textual

/-!
# How alternatives are joined

Joined alternatives are those in order, rearranged: the parts that all begin with stand in front
once, and what is left may have become one class.  `pullCommon_spec` and `asClass?_spec` say how the
alternatives can be had back.  From these it follows of one measure of patterns after the other that
it does not tell joined alternatives from those in order.
-/

namespace StepTrace.Regex.Expr

variable {folding : Folding} {common parts : List Expr} {found left : List (List Expr)}

theorem eq_cons_tail_of_head? {e : Expr} {parts : List Expr} (h : (parts.head? == some e) = true) :
    parts = e :: parts.tail := by
  cases parts with
  | nil => simp at h
  | cons d parts => simpa using h

/-- The alternatives are what is left of each behind the common parts, which are simple. -/
theorem pullCommon_spec {first : List Expr} {others : List (List Expr)}
    (h : pullCommon first others = (common, left)) :
    first :: others = left.map (common ++ ·) ∧ ∀ e ∈ common, e.isSimple = true := by
  induction first generalizing others common left with
  | nil =>
    cases h
    simp
  | cons e first ih =>
    rw [pullCommon] at h
    split at h
    next hcommon =>
      obtain ⟨hsimple, hall⟩ := Bool.and_eq_true_iff.mp hcommon
      obtain ⟨⟨common', left'⟩, hrest⟩ : ∃ p, pullCommon first (others.map List.tail) = p := ⟨_, rfl⟩
      rw [hrest] at h
      cases h
      obtain ⟨heq, hcommon'⟩ := ih hrest
      refine ⟨?_, by simpa [hsimple] using hcommon'⟩
      have hothers : others = (others.map List.tail).map (e :: ·) := by
        rw [List.map_map]
        refine (List.map_id _).symm.trans (List.map_congr_left fun parts hparts => ?_)
        exact eq_cons_tail_of_head? (List.all_eq_true.mp hall parts hparts)
      calc (e :: first) :: others
          = (first :: others.map List.tail).map (e :: ·) := by rw [List.map_cons, ← hothers]
        _ = left.map (e :: common' ++ ·) := by rw [heq, List.map_map]; rfl
    next =>
      cases h
      simp

/-- Alternatives that make a class are one test of a character each. -/
theorem asClass?_spec {set : CharSet} (h : asClass? folding left = some set) :
    ∃ items, List.Forall₂ (fun parts items => classItems? parts = some items) left items ∧
      set = { items := items.flatten.eraseDups, folding } := by
  unfold asClass? at h
  obtain ⟨items, hitems, hset⟩ := Option.bind_eq_some_iff.mp h
  cases hset
  refine ⟨items, ?_, rfl⟩
  clear h
  induction left generalizing items with
  | nil =>
    cases hitems
    exact .nil
  | cons parts left ih =>
    rw [List.mapM_cons] at hitems
    obtain ⟨first, hfirst, htail⟩ := Option.bind_eq_some_iff.mp hitems
    obtain ⟨rest, hrest, hpure⟩ := Option.bind_eq_some_iff.mp htail
    cases hpure
    exact .cons hfirst (ih rest hrest)

theorem classItems?_eq_some {items : List SetItem} (h : classItems? parts = some items) :
    ∃ test, parts = [one test] ∧ ((∃ code folding, test = .letter code false folding ∧
      items = [.char code]) ∨ ∃ s, test = .set s ∧ s.negated = false ∧ items = s.items) := by
  unfold classItems? at h
  split at h
  next code folding =>
    cases h
    exact ⟨_, rfl, .inl ⟨code, folding, rfl, rfl⟩⟩
  next s =>
    split at h
    next => cases h
    next hnegated =>
      cases h
      exact ⟨_, rfl, .inr ⟨s, rfl, by simpa using hnegated, rfl⟩⟩
  next => cases h

/-- Joined alternatives are the alternatives in order, with the common parts in front and what is
left of them made into a class where that is possible. -/
theorem joined_cases (folding : Folding) (found : List (List Expr)) :
    found = [] ∧ joined folding found = [] ∨ (∃ parts, found = [parts] ∧ joined folding found = parts) ∨
      ∃ common left rest, found = left.map (common ++ ·) ∧ left ≠ [] ∧
        (∀ e ∈ common, e.isSimple = true) ∧ joined folding found = common ++ [rest] ∧
        (rest = inOrder left ∨ ∃ set, asClass? folding left = some set ∧ rest = one (.set set)) := by
  match found with
  | [] => exact .inl ⟨rfl, rfl⟩
  | [parts] => exact .inr (.inl ⟨parts, rfl, rfl⟩)
  | first :: second :: others =>
    refine .inr (.inr ?_)
    obtain ⟨⟨common, left⟩, hpull⟩ : ∃ p, pullCommon first (second :: others) = p := ⟨_, rfl⟩
    obtain ⟨hfound, hcommon⟩ := pullCommon_spec hpull
    refine ⟨common, left, _, hfound, ?_, hcommon, by simp only [joined, hpull]; rfl, ?_⟩
    · rintro rfl
      cases hfound
    · cases hclass : asClass? folding left with
      | none => exact .inl rfl
      | some set => exact .inr ⟨set, rfl, rfl⟩

/-! ## Yes-or-no measures -/

/-- A pattern has the property if and only if one of its parts has it, and no test of a character
does. -/
structure IsTally (q : Expr → Bool) : Prop where
  empty : q empty = false
  one : ∀ test, q (one test) = false
  seq : ∀ first second, q (seq first second) = (q first || q second)
  either : ∀ first second, q (either first second) = (q first || q second)

variable {q : Expr → Bool}

theorem IsTally.sequence (h : IsTally q) (parts : List Expr) : q (sequence parts) = parts.any q := by
  induction parts with
  | nil => exact h.empty
  | cons e parts ih =>
    cases parts with
    | nil => simp [Expr.sequence]
    | cons d parts =>
      have heq : Expr.sequence (e :: d :: parts) = .seq e (Expr.sequence (d :: parts)) := rfl
      rw [heq, h.seq, ih, List.any_cons (a := e)]

theorem IsTally.inOrder (h : IsTally q) (found : List (List Expr)) :
    q (inOrder found) = found.any (·.any q) := by
  induction found with
  | nil => exact h.empty
  | cons parts found ih =>
    cases found with
    | nil => simp [Expr.inOrder, h.sequence]
    | cons other found =>
      have heq : Expr.inOrder (parts :: other :: found) =
          .either (Expr.sequence parts) (Expr.inOrder (other :: found)) := rfl
      rw [heq, h.either, ih, h.sequence, List.any_cons (a := parts)]

theorem IsTally.joined (h : IsTally q) (folding : Folding) (found : List (List Expr)) :
    (joined folding found).any q = found.any (·.any q) := by
  obtain ⟨rfl, heq⟩ | ⟨parts, rfl, heq⟩ | ⟨common, left, rest, rfl, hne, -, heq, hrest⟩ :=
    joined_cases folding found
  · rw [heq]
    rfl
  · simp [heq]
  have hleft : q rest = left.any (·.any q) := by
    obtain rfl | ⟨set, hclass, rfl⟩ := hrest
    · exact h.inOrder left
    · obtain ⟨items, hitems, -⟩ := asClass?_spec hclass
      rw [h.one]
      clear hclass hne heq
      induction hitems with
      | nil => rfl
      | cons hfirst _ ih =>
        obtain ⟨test, rfl, -⟩ := classItems?_eq_some hfirst
        simpa [h.one] using ih
  rw [heq, List.any_append, List.any_cons, List.any_nil, Bool.or_false, hleft, List.any_map]
  clear hleft heq hrest
  induction left with
  | nil => exact absurd rfl hne
  | cons parts left ih =>
    cases left with
    | nil => simp
    | cons other left =>
      have ih := ih (by simp)
      simp only [List.any_cons, Function.comp_apply, List.any_append] at ih ⊢
      rw [← ih]
      cases common.any q <;> simp

theorem isTally_refers : IsTally refers :=
  ⟨rfl, fun _ => rfl, fun _ _ => rfl, fun _ _ => rfl⟩

theorem isTally_hasLoop : IsTally hasLoop :=
  ⟨rfl, fun _ => rfl, fun _ _ => rfl, fun _ _ => rfl⟩

end StepTrace.Regex.Expr
