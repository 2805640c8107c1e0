import StepTrace.Proofs.Regex.Parts

/-!
# Patterns that differ in their groups alone

What it means for two patterns to differ in their groups alone is left open to the proofs that go
over both side by side; it may be any relation between parts that the ways of building patterns
preserve, and that keeps what the reader asks of patterns on the way: their width, and whether they
loop (`SameShape`).  The weakest such relation is `SameShape` itself (`congruence_sameShape`).
-/

namespace StepTrace.Regex

/-! ## Widths -/

namespace Width

theorem exactly_zero_add (w : Width) : (exactly 0).add w = w := by
  obtain ⟨least, _ | most⟩ := w <;> simp [exactly, add]

theorem add_exactly_zero (w : Width) : w.add (exactly 0) = w := by
  obtain ⟨least, _ | most⟩ := w <;> simp [exactly, add]

theorem add_assoc (a b c : Width) : (a.add b).add c = a.add (b.add c) := by
  obtain ⟨la, _ | ma⟩ := a <;> obtain ⟨lb, _ | mb⟩ := b <;> obtain ⟨lc, _ | mc⟩ := c <;>
    simp [add, Nat.add_assoc]

theorem add_join (a b c : Width) : a.add (b.join c) = (a.add b).join (a.add c) := by
  obtain ⟨la, _ | ma⟩ := a <;> obtain ⟨lb, _ | mb⟩ := b <;> obtain ⟨lc, _ | mc⟩ := c <;>
    simp [add, join, Nat.add_min_add_left, Nat.add_max_add_left]

theorem join_self (a : Width) : a.join a = a := by
  obtain ⟨la, _ | ma⟩ := a <;> simp [join]

end Width

namespace Expr

variable {groups groups' : Nat → Width} {folding : Folding}

theorem width_sequence_cons (e : Expr) (parts : List Expr) :
    (sequence (e :: parts)).width groups = (e.width groups).add ((sequence parts).width groups) := by
  cases parts with
  | nil => exact (Width.add_exactly_zero _).symm
  | cons d parts => rfl

theorem width_sequence_append (parts others : List Expr) :
    (sequence (parts ++ others)).width groups =
      ((sequence parts).width groups).add ((sequence others).width groups) := by
  induction parts with
  | nil => exact (Width.exactly_zero_add _).symm
  | cons e parts ih =>
    rw [List.cons_append, width_sequence_cons, ih, width_sequence_cons, Width.add_assoc]

/-- What stands in front of alternatives stands in front of each. -/
theorem width_inOrder_map_append (common : List Expr) {left : List (List Expr)} (hleft : left ≠ []) :
    (inOrder (left.map (common ++ ·))).width groups =
      ((sequence common).width groups).add ((inOrder left).width groups) := by
  induction left with
  | nil => exact absurd rfl hleft
  | cons parts left ih =>
    cases left with
    | nil => exact width_sequence_append common parts
    | cons other left =>
      have ih := ih (by simp)
      simp only [List.map_cons, inOrder, width] at ih ⊢
      rw [ih, width_sequence_append, Width.add_join]

theorem width_inOrder_of_class {left : List (List Expr)} {items : List (List SetItem)}
    (hleft : left ≠ []) (h : List.Forall₂ (fun parts items => classItems? parts = some items) left items) :
    (inOrder left).width groups = .exactly 1 := by
  induction h with
  | nil => exact absurd rfl hleft
  | @cons parts _ left _ hfirst hrest ih =>
    obtain ⟨test, rfl, -⟩ := classItems?_eq_some hfirst
    cases left with
    | nil => rfl
    | cons other left =>
      have ih := ih (by simp)
      simp only [inOrder, width, sequence] at ih ⊢
      rw [ih, Width.join_self]

/-- Alternatives are as wide joined as they are in order. -/
theorem width_joined (folding : Folding) (found : List (List Expr)) :
    (sequence (joined folding found)).width groups = (inOrder found).width groups := by
  obtain ⟨rfl, heq⟩ | ⟨parts, rfl, heq⟩ | ⟨common, left, rest, rfl, hne, -, heq, hrest⟩ :=
    joined_cases folding found
  · rw [heq]
    rfl
  · rw [heq]
    rfl
  · rw [heq, width_sequence_append, width_inOrder_map_append common hne]
    obtain rfl | ⟨set, hclass, rfl⟩ := hrest
    · rfl
    · obtain ⟨items, hitems, -⟩ := asClass?_spec hclass
      rw [width_inOrder_of_class hne hitems]
      rfl

end Expr

/-! ## Relations between parts -/

/-- The parts loop alike and are equally wide, however wide the groups are that they refer to. -/
structure SameShape (p p' : List Expr) : Prop where
  hasLoop : p.any Expr.hasLoop = p'.any Expr.hasLoop
  width (groups groups' : Nat → Width) :
    (Expr.sequence p).width groups = (Expr.sequence p').width groups'

/-- A relation between parts of patterns, the second with fewer groups, that all ways of building
patterns preserve; letters are compared and classes are chosen as flags with the property `P` ask
for. -/
structure Congruence (P : Flags → Prop) (R : List Expr → List Expr → Prop) : Prop where
  shape {p p'} : R p p' → SameShape p p'
  nil : R [] []
  append {p p' q q'} : R p p' → R q q' → R (p ++ q) (p' ++ q')
  leaf {flags e} : P flags → e.IsLeaf flags → R [e] [e]
  dropped {number p p'} : R p p' → R [.group number (.sequence p)] p'
  kept {number number' p p'} : R p p' →
    R [.group number (.sequence p)] [.group number' (.sequence p')]
  flagged {p p'} : R p p' → R [.flagged (.sequence p)] [.flagged (.sequence p')]
  loop {mode least most p p'} : (∀ m, most = some m → least ≤ m) → R p p' →
    R [.loop mode least most (.sequence p)] [.loop mode least most (.sequence p')]
  ahead {negated p p'} : R p p' →
    R [.ahead negated (.sequence p)] [.ahead negated (.sequence p')]
  behind {negated width p p'} : R p p' →
    R [.behind negated width (.sequence p)] [.behind negated width (.sequence p')]
  atomic {p p'} : R p p' → R [.atomic (.sequence p)] [.atomic (.sequence p')]
  joined {flags found found'} : P flags → List.Forall₂ R found found' →
    R (Expr.joined flags.folding found) (Expr.joined flags.folding found')

theorem sameShape_inOrder {found found' : List (List Expr)} (h : List.Forall₂ SameShape found found')
    (groups groups' : Nat → Width) :
    (Expr.inOrder found).width groups = (Expr.inOrder found').width groups' := by
  induction h with
  | nil => rfl
  | cons hfirst hrest ih =>
    cases hrest with
    | nil => exact hfirst.width groups groups'
    | cons hsecond hrest =>
      rw [Expr.inOrder, Expr.width, ih, hfirst.width groups groups']
      · rfl
      · simp

theorem sameShape_of_body {e e' : Expr} {p p' : List Expr} (h : SameShape p p')
    (hloop : e.hasLoop = (Expr.sequence p).hasLoop) (hloop' : e'.hasLoop = (Expr.sequence p').hasLoop)
    (hwidth : ∀ groups groups', e.width groups = e'.width groups') : SameShape [e] [e'] := by
  refine ⟨?_, hwidth⟩
  rw [List.any_cons, List.any_cons, hloop, hloop', Expr.isTally_hasLoop.sequence,
    Expr.isTally_hasLoop.sequence, h.hasLoop]

theorem congruence_sameShape (P : Flags → Prop) : Congruence P SameShape where
  shape := id
  nil := ⟨rfl, fun _ _ => rfl⟩
  append h h' := by
    refine ⟨?_, fun groups groups' => ?_⟩
    · rw [List.any_append, List.any_append, h.hasLoop, h'.hasLoop]
    · rw [Expr.width_sequence_append, Expr.width_sequence_append, h.width groups groups',
        h'.width groups groups']
  leaf {flags e} _ h := by
    refine ⟨rfl, fun groups groups' => ?_⟩
    cases e with
    | one test => rfl
    | anchor place => rfl
    | _ => cases h
  dropped {number p p'} h := by
    refine ⟨?_, h.width⟩
    rw [List.any_cons, Expr.hasLoop, Expr.isTally_hasLoop.sequence, h.hasLoop]
    simp
  kept h := sameShape_of_body h rfl rfl h.width
  flagged h := sameShape_of_body h rfl rfl h.width
  loop _ h := by
    refine ⟨rfl, fun groups groups' => ?_⟩
    simp only [Expr.sequence, Expr.width, h.width groups groups']
  ahead h := sameShape_of_body h rfl rfl fun _ _ => rfl
  behind h := sameShape_of_body h rfl rfl fun _ _ => rfl
  atomic h := sameShape_of_body h rfl rfl h.width
  joined {flags found found'} _ h := by
    refine ⟨?_, fun groups groups' => ?_⟩
    · rw [Expr.isTally_hasLoop.joined, Expr.isTally_hasLoop.joined]
      induction h with
      | nil => rfl
      | cons hfirst _ ih => rw [List.any_cons, List.any_cons, hfirst.hasLoop, ih]
    · rw [Expr.width_joined, Expr.width_joined, sameShape_inOrder h groups groups']

end StepTrace.Regex
