import StepTrace.Proofs.Regex.Congruence
import StepTrace.Proofs.Regex.Loops

/-!
# What a pattern matches, whatever it captures

Two patterns that differ in their groups alone capture differently, so their runs go through
different states.  They are alike in that runs from the same place, with rests that are alike, end
at the same place (`RoundAlike`): a pattern without references never looks at what has been
captured.  All ways of building patterns preserve this (`congruence_sameMatches`), the joining of
alternatives included, which may well join what is left of them when their groups are gone: joined
alternatives match what those in order match (`Expr.run_joined`).
-/

namespace StepTrace.Regex

/-! ## Runs that are alike -/

/-- The runs both fail, or end at the same place. -/
abbrev SameEnd : Option State → Option State → Prop :=
  Option.Rel fun s s' => s.pos = s'.pos

/-- From the same place, the rests end at the same place. -/
def RestAlike (k k' : Rest) : Prop :=
  ∀ ⦃s s' : State⦄, s.pos = s'.pos → SameEnd (k s) (k' s')

/-- With rests that are alike, the rounds are alike. -/
def RoundAlike (g g' : Round) : Prop :=
  ∀ ⦃k k' : Rest⦄, RestAlike k k' → RestAlike (g k) (g' k')

variable {g g' : Round} {k k' : Rest} {s s' : State}

theorem SameEnd.or {a a' b b' : Option State} (h : SameEnd a a') (h' : SameEnd b b') :
    SameEnd (a.or b) (a'.or b') := by
  cases h with
  | none => exact h'
  | some hpos => exact .some hpos

theorem restAlike_some : RestAlike some some :=
  fun _ _ hpos => .some hpos

/-- The rest behind a group that has begun at the place. -/
def capturing (number first : Nat) (k : Rest) : Rest := fun t =>
  k { t with captures := (number, first, t.pos) :: t.captures }

theorem RestAlike.capturing (h : RestAlike k k') (number number' first first' : Nat) :
    RestAlike (capturing number first k) (capturing number' first' k') :=
  fun _ _ hpos => h hpos

theorem RestAlike.capturing_left (h : RestAlike k k') (number first : Nat) :
    RestAlike (Regex.capturing number first k) k' :=
  fun _ _ hpos => h hpos

/-! ### Looking around -/

/-- The rest behind a look around whose inside has ended so. -/
def looked (negated : Bool) (found : Option State) (k : Rest) : Rest := fun s =>
  match found, negated with
  | some t, false => k { s with captures := t.captures }
  | none, true => k s
  | _, _ => none

theorem run_ahead (text : Array Char) (negated : Bool) (body : Expr) (k : Rest) (s : State) :
    Expr.run text (.ahead negated body) k s = looked negated (Expr.run text body some s) k s :=
  rfl

theorem run_behind (text : Array Char) (negated : Bool) (width : Nat) (body : Expr) (k : Rest)
    (s : State) : Expr.run text (.behind negated width body) k s =
      if s.pos < width then (if negated then k s else none)
      else looked negated (Expr.run text body some { s with pos := s.pos - width }) k s :=
  rfl

/-- What was found inside is not looked at, only whether there is something. -/
theorem SameEnd.looked {found found' : Option State} (h : SameEnd found found')
    (hk : RestAlike k k') (negated : Bool) :
    RestAlike (looked negated found k) (looked negated found' k') := by
  intro s s' hpos
  cases h with
  | none =>
    cases negated with
    | false => exact .none
    | true => exact hk hpos
  | some _ =>
    cases negated with
    | false => exact hk hpos
    | true => exact .none

/-! ### Loops -/

theorem RoundAlike.rounds (h : RoundAlike g g') (hk : RestAlike k k') (n : Nat) :
    RestAlike (rounds g n k) (rounds g' n k') := by
  induction n with
  | zero => exact hk
  | succ n ih => exact h ih

theorem exhausted_congr (hpos : s.pos = s'.pos) (most began : Option Nat) :
    exhausted most began s = exhausted most began s' := by
  rw [exhausted, exhausted, hpos]

theorem RoundAlike.greedyRounds (h : RoundAlike g g') (hk : RestAlike k k') (fuel : Nat)
    (most began : Option Nat) :
    RestAlike (greedyRounds g k fuel most began) (greedyRounds g' k' fuel most began) := by
  induction fuel generalizing most began with
  | zero => exact hk
  | succ fuel ih =>
    intro s s' hpos
    rw [greedyRounds_succ, greedyRounds_succ, exhausted_congr hpos, hpos]
    split
    · exact hk hpos
    · exact (h (ih _ _) hpos).or (hk hpos)

theorem RoundAlike.lazyRounds (h : RoundAlike g g') (hk : RestAlike k k') (fuel : Nat)
    (most began : Option Nat) :
    RestAlike (lazyRounds g k fuel most began) (lazyRounds g' k' fuel most began) := by
  induction fuel generalizing most began with
  | zero => exact hk
  | succ fuel ih =>
    intro s s' hpos
    rw [lazyRounds_succ, lazyRounds_succ, exhausted_congr hpos, hpos]
    refine (hk hpos).or ?_
    split
    · exact .none
    · exact h (ih _ _) hpos

theorem RoundAlike.once (h : RoundAlike g g') : RoundAlike (once g) (once g') := by
  intro k k' hk s s' hpos
  have hfirst := h restAlike_some hpos
  rw [Regex.once, Regex.once]
  generalize g some s = first, g' some s' = first' at hfirst
  cases hfirst with
  | none => exact .none
  | some hpos => exact hk hpos

theorem RoundAlike.loopRounds (h : RoundAlike g g') (size : Nat) (mode : LoopMode) (least : Nat)
    (most : Option Nat) :
    RoundAlike (loopRounds size mode least most g) (loopRounds size mode least most g') := by
  intro k k' hk
  cases mode with
  | greedy => exact h.rounds (h.greedyRounds hk _ _ _) least
  | «lazy» => exact h.rounds (h.lazyRounds hk _ _ _) least
  | possessive =>
    have hall : RoundAlike
        (fun rest => Regex.rounds (Regex.once g) least
          (Regex.greedyRounds (Regex.once g) rest (size + 2) (most.map (· - least)) none))
        (fun rest => Regex.rounds (Regex.once g') least
          (Regex.greedyRounds (Regex.once g') rest (size + 2) (most.map (· - least)) none)) :=
      fun _ _ hk => h.once.rounds (h.once.greedyRounds hk _ _ _) least
    exact hall.once hk

/-! ## Sequences and alternatives -/

namespace Expr

variable {text : Array Char}

theorem run_sequence_cons (e : Expr) (parts : List Expr) (rest : Rest) :
    run text (sequence (e :: parts)) rest = run text e (run text (sequence parts) rest) := by
  cases parts with
  | nil => rfl
  | cons d parts => rfl

theorem run_sequence_append (parts others : List Expr) (rest : Rest) :
    run text (sequence (parts ++ others)) rest =
      run text (sequence parts) (run text (sequence others) rest) := by
  induction parts with
  | nil => rfl
  | cons e parts ih => rw [List.cons_append, run_sequence_cons, ih, run_sequence_cons]

theorem run_either (first second : Expr) (rest : Rest) (s : State) :
    run text (.either first second) rest s =
      (run text first rest s).or (run text second rest s) := by
  simp only [run]
  cases run text first rest s <;> rfl

theorem run_inOrder_cons (parts : List Expr) {found : List (List Expr)} (hfound : found ≠ [])
    (rest : Rest) (s : State) : run text (inOrder (parts :: found)) rest s =
      (run text (sequence parts) rest s).or (run text (inOrder found) rest s) := by
  cases found with
  | nil => exact absurd rfl hfound
  | cons other found => exact run_either _ _ _ _

end Expr

/-! ### Parts that stand in front -/

/-- From every state the round goes on in one way at most. -/
def Decided (g : Round) : Prop :=
  ∀ s, (∃ t, ∀ k : Rest, g k s = k t) ∨ ∀ k : Rest, g k s = none

namespace Expr

variable {text : Array Char} {folding : Folding}

theorem decided_of_isSimple {e : Expr} (h : e.isSimple = true) : Decided (run text e) := by
  intro s
  cases e with
  | one test =>
    simp only [run_one]
    split
    · exact .inl ⟨_, fun _ => rfl⟩
    · exact .inr fun _ => rfl
  | same number folding =>
    simp only [run]
    split
    · split
      · exact .inl ⟨_, fun _ => rfl⟩
      · exact .inr fun _ => rfl
    · exact .inr fun _ => rfl
  | anchor place =>
    simp only [run]
    split
    · exact .inl ⟨_, fun _ => rfl⟩
    · exact .inr fun _ => rfl
  | _ => cases h

theorem decided_sequence {parts : List Expr} (h : ∀ e ∈ parts, e.isSimple = true) :
    Decided (run text (sequence parts)) := by
  induction parts with
  | nil => exact fun s => .inl ⟨s, fun _ => rfl⟩
  | cons e parts ih =>
    intro s
    have hrest := ih fun d hd => h d (List.mem_cons_of_mem _ hd)
    simp only [run_sequence_cons]
    have hfirst : Decided (run text e) := decided_of_isSimple (h e (by simp))
    obtain ⟨t, ht⟩ | hnone := hfirst s
    · obtain ⟨u, hu⟩ | hnone := hrest t
      · exact .inl ⟨u, fun k => (ht _).trans (hu k)⟩
      · exact .inr fun k => (ht _).trans (hnone k)
    · exact .inr fun k => hnone _

end Expr

/-- What is decided first may be put in front of alternatives. -/
theorem Decided.or {g : Round} (h : Decided g) (first second : Rest) (s : State) :
    g (fun s => (first s).or (second s)) s = (g first s).or (g second s) := by
  obtain ⟨t, ht⟩ | hnone := h s
  · rw [ht, ht, ht]
  · rw [hnone, hnone, hnone]
    rfl

namespace Expr

variable {text : Array Char} {folding : Folding}

theorem run_inOrder_map_append {common : List Expr} (hcommon : ∀ e ∈ common, e.isSimple = true)
    {left : List (List Expr)} (hleft : left ≠ []) (rest : Rest) :
    run text (inOrder (left.map (common ++ ·))) rest =
      run text (sequence common) (run text (inOrder left) rest) := by
  induction left with
  | nil => exact absurd rfl hleft
  | cons parts left ih =>
    by_cases hnil : left = []
    · subst hnil
      exact run_sequence_append common parts rest
    funext s
    rw [List.map_cons, run_inOrder_cons _ (by simpa using hnil), ih hnil, run_sequence_append,
      ← (decided_sequence hcommon).or]
    congr 1
    funext t
    exact (run_inOrder_cons parts hnil rest t).symm

/-! ### Alternatives that are one class -/

/-- Exact tests hold of a character if one of the entries of their class does. -/
theorem holds_of_classItems {test : CharTest} {items : List SetItem} (c : Char)
    (hplain : test.Under {}) (h : classItems? [one test] = some items) :
    test.holds c = items.any (·.holds .exact c (Folding.variants .exact c.toNat)) := by
  obtain ⟨_, heq, ⟨code, folding, rfl, rfl⟩ | ⟨set, rfl, hnegated, rfl⟩⟩ := classItems?_eq_some h
  · obtain rfl : test = .letter code false folding := by simpa using heq
    obtain rfl : folding = .exact := hplain
    simp [CharTest.holds, SetItem.holds]
  · obtain rfl : test = .set set := by simpa using heq
    obtain ⟨hfolding, -⟩ := hplain
    have hfolding : set.folding = .exact := hfolding
    simp [CharTest.holds, CharSet.contains, hfolding, hnegated]

theorem any_eraseDups {α : Type} [BEq α] [LawfulBEq α] (xs : List α) (q : α → Bool) :
    xs.eraseDups.any q = xs.any q := by
  rw [Bool.eq_iff_iff, List.any_eq_true, List.any_eq_true]
  simp only [List.mem_eraseDups]

theorem or_ite {α : Type} (a b : Bool) (x : Option α) :
    (if a then x else none).or (if b then x else none) = if a || b then x else none := by
  cases a <;> cases b <;> cases x <;> rfl

theorem run_inOrder_of_class {left : List (List Expr)} {items : List (List SetItem)}
    (hleft : left ≠ []) (hplain : ∀ parts ∈ left, ∀ test, .one test ∈ parts → test.Under {})
    (h : List.Forall₂ (fun parts items => classItems? parts = some items) left items)
    (rest : Rest) (s : State) : run text (inOrder left) rest s =
      if text[s.pos]?.any fun c =>
          items.flatten.any (·.holds .exact c (Folding.variants .exact c.toNat))
        then rest s.step else none := by
  induction h with
  | nil => exact absurd rfl hleft
  | @cons parts first left items hfirst hrest ih =>
    obtain ⟨test, rfl, -⟩ := classItems?_eq_some hfirst
    have htest := hplain [one test] (by simp) test (by simp)
    have hone : run text (sequence [one test]) rest s =
        if text[s.pos]?.any fun c => first.any (·.holds .exact c (Folding.variants .exact c.toNat))
          then rest s.step else none := by
      have hone := run_one text test rest s
      rw [passesAt] at hone
      simp only [holds_of_classItems _ htest hfirst] at hone
      exact hone
    cases hrest with
    | nil =>
      rw [List.flatten_cons, List.flatten_nil, List.append_nil]
      exact hone
    | cons hsecond hrest =>
      have ih := ih (by simp) fun parts hparts => hplain parts (List.mem_cons_of_mem _ hparts)
      rw [run_inOrder_cons _ (by simp), ih, hone]
      simp only [List.flatten_cons, List.any_append]
      cases text[s.pos]? with
      | none => rfl
      | some c => exact or_ite _ _ _

/-! ### Plain patterns -/

/-- All tests of the pattern compare letters and choose classes as the flags ask for. -/
def Under (flags : Flags) : Expr → Prop
  | empty | same _ _ | anchor _ => True
  | one test => test.Under flags
  | seq first second | either first second | ifGroup _ first second =>
    first.Under flags ∧ second.Under flags
  | group _ body | flagged body | loop _ _ _ body | ahead _ body | behind _ _ body | atomic body =>
    body.Under flags

variable {flags : Flags} {parts : List Expr} {found : List (List Expr)}

theorem under_sequence : (sequence parts).Under flags ↔ ∀ e ∈ parts, e.Under flags := by
  induction parts with
  | nil => simp [sequence, Under]
  | cons e parts ih =>
    cases parts with
    | nil => simp [sequence]
    | cons d parts => rw [List.forall_mem_cons, ← ih]; rfl

theorem under_inOrder (h : ∀ parts ∈ found, ∀ e ∈ parts, e.Under flags) :
    (inOrder found).Under flags := by
  induction found with
  | nil => trivial
  | cons parts found ih =>
    obtain ⟨hfirst, hrest⟩ := List.forall_mem_cons.mp h
    cases found with
    | nil => exact under_sequence.mpr hfirst
    | cons other found => exact ⟨under_sequence.mpr hfirst, ih hrest⟩

theorem under_asClass? {set : CharSet} (h : asClass? flags.folding found = some set)
    (hplain : ∀ parts ∈ found, ∀ e ∈ parts, e.Under flags) : (CharTest.set set).Under flags := by
  obtain ⟨items, hitems, rfl⟩ := asClass?_spec h
  refine ⟨rfl, fun item hitem => ?_⟩
  rw [List.mem_eraseDups] at hitem
  clear h
  induction hitems with
  | nil => simp at hitem
  | cons hfirst _ ih =>
    obtain ⟨hplain, hrest⟩ := List.forall_mem_cons.mp hplain
    rw [List.flatten_cons, List.mem_append] at hitem
    refine hitem.elim (fun hitem => ?_) (ih hrest)
    obtain ⟨test, rfl, ⟨code, folding, rfl, rfl⟩ | ⟨set, rfl, -, rfl⟩⟩ := classItems?_eq_some hfirst
    · obtain rfl := List.mem_singleton.mp hitem
      trivial
    · have htest : (CharTest.set set).Under flags := hplain (one (.set set)) (by simp)
      exact htest.2 item hitem

theorem under_joined (h : ∀ parts ∈ found, ∀ e ∈ parts, e.Under flags) :
    ∀ e ∈ joined flags.folding found, e.Under flags := by
  obtain ⟨rfl, heq⟩ | ⟨parts, rfl, heq⟩ | ⟨common, left, rest, rfl, hne, -, heq, hrest⟩ :=
    joined_cases flags.folding found
  · simp [heq]
  · rw [heq]
    exact h parts (by simp)
  · have hleft : ∀ parts ∈ left, ∀ e ∈ parts, e.Under flags := fun parts hparts e he =>
      h _ (List.mem_map_of_mem hparts) e (List.mem_append_right _ he)
    rw [heq]
    intro e he
    obtain he | he := List.mem_append.mp he
    · obtain ⟨parts, hparts⟩ := List.exists_mem_of_ne_nil left hne
      exact h _ (List.mem_map_of_mem hparts) e (List.mem_append_left _ he)
    · obtain rfl := List.mem_singleton.mp he
      obtain rfl | ⟨set, hclass, rfl⟩ := hrest
      · exact under_inOrder hleft
      · exact under_asClass? hclass hleft

/-- Where letters are compared exactly, joined alternatives match what those in order match. -/
theorem run_joined (h : ∀ parts ∈ found, ∀ e ∈ parts, e.Under {}) :
    run text (sequence (joined .exact found)) = run text (inOrder found) := by
  funext rest
  obtain ⟨rfl, heq⟩ | ⟨parts, rfl, heq⟩ | ⟨common, left, last, rfl, hne, hcommon, heq, hlast⟩ :=
    joined_cases .exact found
  · rw [heq]
    rfl
  · rw [heq]
    rfl
  · rw [heq, run_sequence_append, run_inOrder_map_append hcommon hne]
    obtain rfl | ⟨set, hclass, rfl⟩ := hlast
    · rfl
    · obtain ⟨items, hitems, rfl⟩ := asClass?_spec hclass
      congr 1
      funext s
      have hleft : ∀ parts ∈ left, ∀ test, .one test ∈ parts → test.Under {} :=
        fun parts hparts test htest =>
          h _ (List.mem_map_of_mem hparts) (.one test) (List.mem_append_right _ htest)
      rw [run_inOrder_of_class hne hleft hitems]
      have hset : ∀ c, (CharTest.set { items := items.flatten.eraseDups, folding := .exact }).holds c =
          items.flatten.any (·.holds .exact c (Folding.variants .exact c.toNat)) := by
        intro c
        simp [CharTest.holds, CharSet.contains, any_eraseDups]
      have hone := run_one text (.set { items := items.flatten.eraseDups, folding := .exact }) rest s
      rw [passesAt] at hone
      simp only [hset] at hone
      exact hone

end Expr

/-! ## Patterns that match alike -/

open Regex.Expr

/-- The parts are of one shape, compare letters and choose classes without flags, and match alike. -/
structure SameMatches (p p' : List Expr) : Prop where
  shape : SameShape p p'
  plain : ∀ e ∈ p, e.Under {}
  plain' : ∀ e ∈ p', e.Under {}
  runs (text : Array Char) : RoundAlike (run text (sequence p)) (run text (sequence p'))

theorem SameMatches.of_body {e e' : Expr} {p p' : List Expr} (h : SameMatches p p')
    (hshape : SameShape [e] [e']) (hplain : (sequence p).Under {} → e.Under {})
    (hplain' : (sequence p').Under {} → e'.Under {})
    (hruns : ∀ text, RoundAlike (run text (sequence p)) (run text (sequence p')) →
      RoundAlike (run text e) (run text e')) : SameMatches [e] [e'] :=
  ⟨hshape, by simpa using hplain (under_sequence.mpr h.plain),
    by simpa using hplain' (under_sequence.mpr h.plain'), fun text => hruns text (h.runs text)⟩

theorem roundAlike_inOrder {found found' : List (List Expr)} (text : Array Char)
    (h : List.Forall₂ SameMatches found found') :
    RoundAlike (run text (inOrder found)) (run text (inOrder found')) := by
  induction h with
  | nil => exact fun _ _ hk => hk
  | cons hfirst hrest ih =>
    cases hrest with
    | nil => exact hfirst.runs text
    | cons hsecond hrest =>
      intro k k' hk s s' hpos
      rw [run_inOrder_cons _ (List.cons_ne_nil _ _), run_inOrder_cons _ (List.cons_ne_nil _ _)]
      exact (hfirst.runs text hk hpos).or (ih hk hpos)

theorem plain_of_forall₂ {found found' : List (List Expr)} (h : List.Forall₂ SameMatches found found') :
    (∀ parts ∈ found, ∀ e ∈ parts, e.Under {}) ∧ ∀ parts ∈ found', ∀ e ∈ parts, e.Under {} := by
  induction h with
  | nil => simp
  | cons hfirst _ ih =>
    exact ⟨List.forall_mem_cons.mpr ⟨hfirst.plain, ih.1⟩,
      List.forall_mem_cons.mpr ⟨hfirst.plain', ih.2⟩⟩

theorem roundAlike_leaf {flags : Flags} {e : Expr} (h : e.IsLeaf flags) (text : Array Char) :
    RoundAlike (run text e) (run text e) := by
  intro k k' hk s s' hpos
  cases e with
  | one test =>
    rw [run_one, run_one, hpos]
    split
    · exact hk (congrArg (· + 1) hpos)
    · exact .none
  | anchor place =>
    simp only [run, hpos]
    split
    · exact hk hpos
    · exact .none
  | _ => cases h

theorem under_of_isLeaf {flags : Flags} {e : Expr} (h : e.IsLeaf flags) : e.Under flags := by
  cases e with
  | one test => exact h
  | anchor place => trivial
  | _ => cases h

theorem congruence_sameMatches : Congruence (· = {}) SameMatches where
  shape h := h.shape
  nil := ⟨(congruence_sameShape (· = {})).nil, by simp, by simp, fun _ _ _ hk => hk⟩
  append h h' := by
    refine ⟨(congruence_sameShape (· = {})).append h.shape h'.shape, ?_, ?_, fun text k k' hk => ?_⟩
    · exact List.forall_mem_append.mpr ⟨h.plain, h'.plain⟩
    · exact List.forall_mem_append.mpr ⟨h.plain', h'.plain'⟩
    · rw [run_sequence_append, run_sequence_append]
      exact h.runs text (h'.runs text hk)
  leaf hflags h := by
    subst hflags
    exact ⟨(congruence_sameShape (· = {})).leaf rfl h, by simpa using under_of_isLeaf h,
      by simpa using under_of_isLeaf h, roundAlike_leaf h⟩
  -- the group goes, and with it the note of its place, which no rest looks at
  dropped {number p p'} h := by
    refine ⟨(congruence_sameShape (· = {})).dropped h.shape, ?_, h.plain', fun text k k' hk => ?_⟩
    · exact List.forall_mem_singleton.mpr (under_sequence.mpr h.plain)
    · exact fun s s' hpos => h.runs text (hk.capturing_left number s.pos) hpos
  kept {number number' p p'} h := h.of_body ((congruence_sameShape (· = {})).kept h.shape) id id
    fun text hruns k k' hk s s' hpos => hruns (hk.capturing number number' s.pos s'.pos) hpos
  flagged h := h.of_body ((congruence_sameShape (· = {})).flagged h.shape) id id
    fun text hruns => hruns
  loop hbound h := h.of_body ((congruence_sameShape (· = {})).loop hbound h.shape) id id
    fun text hruns => by
      rw [run_loop _ hbound, run_loop _ hbound]
      exact hruns.loopRounds _ _ _ _
  ahead {negated p p'} h := h.of_body ((congruence_sameShape (· = {})).ahead h.shape) id id
    fun text hruns k k' hk s s' hpos => by
      rw [run_ahead, run_ahead]
      exact (hruns restAlike_some hpos).looked hk negated hpos
  behind {negated width p p'} h := h.of_body ((congruence_sameShape (· = {})).behind h.shape) id id
    fun text hruns k k' hk s s' hpos => by
      have hback : ({ s with pos := s.pos - width } : State).pos =
          ({ s' with pos := s'.pos - width } : State).pos := by rw [hpos]
      have hlooked := (hruns restAlike_some hback).looked hk negated hpos
      rw [run_behind, run_behind]
      rw [← hpos] at hlooked ⊢
      split
      · split
        · exact hk hpos
        · exact .none
      · exact hlooked
  atomic h := h.of_body ((congruence_sameShape (· = {})).atomic h.shape) id id
    fun text hruns => hruns.once
  joined hflags h := by
    subst hflags
    obtain ⟨hplain, hplain'⟩ := plain_of_forall₂ h
    refine ⟨(congruence_sameShape (· = {})).joined rfl (h.imp fun _ _ h => h.shape),
      under_joined hplain, under_joined hplain', fun text => ?_⟩
    have hfolding : ({} : Flags).folding = .exact := rfl
    rw [hfolding, run_joined hplain, run_joined hplain']
    exact roundAlike_inOrder text h

end StepTrace.Regex
