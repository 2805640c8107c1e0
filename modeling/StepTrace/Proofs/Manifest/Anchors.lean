import StepTrace.Manifest.Constant
import StepTrace.Proofs.Regex.Tokens
import Mathlib.Algebra.Group.Nat.Even
import Mathlib.Data.List.Basic
import Mathlib.Data.List.Induction

/-!
# The anchor at the end of a constant

A dollar sign at the end of a constant is an anchor unless it is escaped, and it is escaped if the
backslash before it is not escaped itself.  So what matters is whether the number of backslashes
before it is even; this is also what the reader of patterns goes by, which reads a backslash
together with the character behind it (`endsInAnchor_iff_token`).

A constant loses the dollar sign at its end unless a single backslash is seen before it.  This is
the right thing except where backslashes before the dollar sign escape each other: there an anchor
is taken for a literal dollar sign (`stripAnchors_eq_dropAnchor_iff`).
-/

namespace StepTrace.Manifest

open Regex (Token Spans written)

variable {s u : List Char}

/-! ## Backslashes at the end of a text -/

/-- The number of backslashes that a text ends in. -/
def backslashes (s : List Char) : Nat :=
  (s.reverse.takeWhile (· == '\\')).length

@[simp] theorem backslashes_concat_backslash (s : List Char) :
    backslashes (s ++ ['\\']) = backslashes s + 1 := by
  simp [backslashes]

theorem backslashes_concat {c : Char} (h : c ≠ '\\') (s : List Char) :
    backslashes (s ++ [c]) = 0 := by
  simp [backslashes, h]

theorem exists_of_backslashes_ne_zero (h : backslashes s ≠ 0) : ∃ u, s = u ++ ['\\'] := by
  rcases s.eq_nil_or_concat' with rfl | ⟨u, c, rfl⟩
  · exact absurd rfl h
  · by_cases hc : c = '\\'
    · exact ⟨u, by rw [hc]⟩
    · exact absurd (backslashes_concat hc u) h

/-- Tokens end in an even number of backslashes, because each of them takes the backslashes that it
begins with two by two. -/
theorem even_backslashes_written {ts : List Token} (h : ∀ t ∈ ts, t ≠ .plain '\\') :
    Even (backslashes (written ts)) := by
  induction ts using List.reverseRecOn with
  | nil => exact .zero
  | append_singleton ts t ih =>
      have hts := ih fun t' ht' => h t' (List.mem_append_left _ ht')
      rw [Regex.written_append]
      cases t with
      | plain c =>
          have hc : c ≠ '\\' := fun heq => h (.plain c) (by simp) (by rw [heq])
          rw [show written [.plain c] = [c] from rfl, backslashes_concat hc]
          exact .zero
      | escaped c =>
          rw [show written [.escaped c] = ['\\'] ++ [c] from rfl, ← List.append_assoc]
          by_cases hc : c = '\\'
          · rw [hc, backslashes_concat_backslash, backslashes_concat_backslash, Nat.even_add_one,
              Nat.even_add_one, not_not]
            exact hts
          · rw [backslashes_concat hc]
            exact .zero

/-- A text that ends in an even number of backslashes consists of tokens: none is left over that
would escape what follows. -/
theorem exists_written_of_even (h : Even (backslashes s)) :
    ∃ ts, s = written ts ∧ ∀ t ∈ ts, t ≠ Token.plain '\\' := by
  induction hlength : s.length using Nat.strong_induction_on generalizing s with
  | _ n ih =>
      rcases s.eq_nil_or_concat' with rfl | ⟨u, c, rfl⟩
      · exact ⟨[], rfl, by simp⟩
      by_cases hu : Even (backslashes u)
      · have hc : c ≠ '\\' := by
          rintro rfl
          rw [backslashes_concat_backslash, Nat.even_add_one] at h
          exact h hu
        obtain ⟨ts, rfl, hts⟩ := ih u.length (by simp [← hlength]) hu rfl
        refine ⟨ts ++ [.plain c], by rw [Regex.written_append]; rfl, fun t ht => ?_⟩
        rcases List.mem_append.mp ht with ht | ht
        · exact hts t ht
        · rw [List.mem_singleton.mp ht]
          exact fun heq => hc (Token.plain.inj heq)
      -- An odd number of backslashes before the last character: the last of them escapes it.
      · obtain ⟨x, rfl⟩ := exists_of_backslashes_ne_zero fun hzero => hu (hzero ▸ .zero)
        rw [backslashes_concat_backslash, Nat.even_add_one, not_not] at hu
        obtain ⟨ts, rfl, hts⟩ := ih x.length (by simp [← hlength]) hu rfl
        refine ⟨ts ++ [.escaped c], ?_, fun t ht => ?_⟩
        · rw [Regex.written_append, List.append_assoc]
          rfl
        · rcases List.mem_append.mp ht with ht | ht
          · exact hts t ht
          · rw [List.mem_singleton.mp ht]
            exact nofun

/-! ## Dollar signs at the end of a text -/

/-- The text ends in a dollar sign behind an even number of backslashes, possibly none. -/
def EndsInAnchor (s : List Char) : Prop :=
  s.getLast? = some '$' ∧ Even (backslashes s.dropLast)

instance (s : List Char) : Decidable (EndsInAnchor s) :=
  inferInstanceAs (Decidable (_ ∧ _))

/-- The text without the anchor at its end. -/
def dropAnchor (s : List Char) : List Char :=
  if EndsInAnchor s then s.dropLast else s

theorem getLast?_eq_some_iff_concat {c : Char} :
    s.getLast? = some c ↔ s = s.dropLast ++ [c] := by
  constructor
  · intro h
    obtain ⟨u, rfl⟩ := List.getLast?_eq_some_iff.mp h
    simp
  · intro h
    rw [h]
    simp

/-- An anchor is a dollar sign that the reader of patterns reads by itself. -/
theorem endsInAnchor_iff_token : EndsInAnchor s ↔ ∃ ts, Spans (ts ++ [.plain '$']) s [] := by
  constructor
  · rintro ⟨hlast, heven⟩
    obtain ⟨ts, hts, htokens⟩ := exists_written_of_even heven
    refine ⟨ts, ?_, ?_, by simp⟩
    · rw [List.append_nil, Regex.written_append, ← hts]
      exact getLast?_eq_some_iff_concat.mp hlast
    · intro t ht
      rcases List.mem_append.mp ht with ht | ht
      · exact htokens t ht
      · rw [List.mem_singleton.mp ht]
        decide
  · rintro ⟨ts, hspans⟩
    have heq : s = written ts ++ ['$'] := by
      rw [hspans.eq, List.append_nil, Regex.written_append]
      rfl
    refine ⟨by rw [heq]; simp, ?_⟩
    rw [heq, List.dropLast_concat]
    exact even_backslashes_written fun t ht => hspans.tokens t (List.mem_append_left _ ht)

/-! ## What a constant loses -/

/-- The text without a caret at its beginning. -/
def withoutCaret : List Char → List Char
  | '^' :: rest => rest
  | s => s

theorem stripAnchors_eq (s : List Char) : stripAnchors s =
    if (withoutCaret s).getLast? = some '$' ∧ backslashes (withoutCaret s).dropLast = 0
    then (withoutCaret s).dropLast else withoutCaret s := by
  have hcaret : stripAnchors s =
      if ['$'].isSuffixOf (withoutCaret s) && !List.isSuffixOf ['\\', '$'] (withoutCaret s)
      then (withoutCaret s).dropLast else withoutCaret s := rfl
  rw [hcaret]
  generalize withoutCaret s = w
  have hdollar : ['$'].isSuffixOf w = true ↔ w.getLast? = some '$' := by
    rw [List.isSuffixOf_iff_suffix, List.getLast?_eq_some_iff]
    exact ⟨fun ⟨u, hu⟩ => ⟨u, hu.symm⟩, fun ⟨u, hu⟩ => ⟨u, hu.symm⟩⟩
  have hescaped (hlast : w.getLast? = some '$') :
      List.isSuffixOf ['\\', '$'] w = true ↔ backslashes w.dropLast ≠ 0 := by
    obtain ⟨u, rfl⟩ := List.getLast?_eq_some_iff.mp hlast
    rw [List.isSuffixOf_iff_suffix, List.dropLast_concat]
    constructor
    · rintro ⟨x, hx⟩
      have hu : u = x ++ ['\\'] := by
        rw [List.append_cons] at hx
        exact (List.append_cancel_right hx).symm
      simp [hu]
    · intro h
      obtain ⟨x, rfl⟩ := exists_of_backslashes_ne_zero h
      exact ⟨x, by simp⟩
  by_cases hlast : w.getLast? = some '$'
  · have hiff := hescaped hlast
    by_cases hzero : backslashes w.dropLast = 0 <;> simp_all
  · have hno := hdollar.not.mpr hlast
    simp [hlast, hno]

/-- **What a constant loses at its end.**  It loses a dollar sign with no backslash before it, and
nothing else.  This is the anchor at its end, if there is one, unless backslashes stand before the
anchor: then it keeps the anchor. -/
theorem stripAnchors_eq_dropAnchor_iff (value : List Char) :
    let cut := withoutCaret (stripSlashes value)
    let answer := stripAnchors (stripSlashes value)
    (EndsInAnchor cut ↔ ∃ ts, Spans (ts ++ [.plain '$']) cut []) ∧
      (answer ≠ cut ↔ cut.getLast? = some '$' ∧ backslashes cut.dropLast = 0) ∧
      (answer ≠ cut → answer = cut.dropLast) ∧
      (answer = dropAnchor cut ↔ ¬ (EndsInAnchor cut ∧ backslashes cut.dropLast ≠ 0)) := by
  intro cut answer
  have hanswer : answer = if cut.getLast? = some '$' ∧ backslashes cut.dropLast = 0
      then cut.dropLast else cut := stripAnchors_eq _
  have hshorter (hlast : cut.getLast? = some '$') : cut.dropLast ≠ cut := by
    intro heq
    have hlength := congrArg List.length (getLast?_eq_some_iff_concat.mp hlast)
    rw [heq] at hlength
    simp at hlength
  refine ⟨endsInAnchor_iff_token, ?_, ?_, ?_⟩
  · rw [hanswer]
    split
    case isTrue h => exact iff_of_true (hshorter h.1) h
    case isFalse h => exact iff_of_false (fun hne => hne rfl) h
  · rw [hanswer]
    split
    case isTrue => exact fun _ => rfl
    case isFalse => exact fun hne => absurd rfl hne
  · rw [hanswer, dropAnchor]
    by_cases hlast : cut.getLast? = some '$'
    · by_cases hzero : backslashes cut.dropLast = 0
      · simp [EndsInAnchor, hlast, hzero]
      · by_cases heven : Even (backslashes cut.dropLast)
        · simp [EndsInAnchor, hlast, hzero, heven, (hshorter hlast).symm]
        · simp [EndsInAnchor, hlast, hzero, heven]
    · simp [EndsInAnchor, hlast]

/-- Behind an escaped backslash a constant keeps its anchor. -/
theorem anchor_behind_backslash :
    let value := ['a', '\\', '\\', '$']
    EndsInAnchor (withoutCaret (stripSlashes value)) ∧
      stripAnchors (stripSlashes value) = value ∧
      dropAnchor (withoutCaret (stripSlashes value)) = ['a', '\\', '\\'] := by
  decide

end StepTrace.Manifest
