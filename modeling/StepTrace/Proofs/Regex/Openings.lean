import StepTrace.Proofs.Regex.Textual

/-!
# The parentheses of a pattern

Which parentheses of a pattern open groups can be told in one pass over its characters, without
reading it into a tree.  `Scan` is the state of such a pass: where the next character stands, whether
blanks and remarks are passed over, and what has been counted.  It goes from character to character,
so that a text put together from pieces is scanned piece by piece (`Scan.past_append`); seen from
token to token (`Scan.after`) it keeps step with the reader.

Besides the openings of groups it counts what a textual rewriting of groups can trip over: openings
directly behind an escaped backslash or with a name that is not made of word characters, and
parentheses that stand in a class and open nothing.
-/

namespace StepTrace.Regex

open Text Reader

/-- Where in a pattern a character stands, as far as parentheses are concerned. -/
inductive Place where
  /-- Where an item of a sequence may begin. -/
  | item
  /-- Behind an opening parenthesis. -/
  | opened
  /-- Behind `(?`. -/
  | question
  /-- Behind `(?P`. -/
  | python
  /-- Behind `(?<`. -/
  | angle
  /-- In the name of a group; all its characters so far are word characters if `wordy`. -/
  | name (wordy : Bool)
  /-- Among letters of flags, with what they come to so far. -/
  | flags (state : Bool × Bool)
  /-- In a text that ends with `stop`; behind it begins the inside of a group if `opens`. -/
  | passing (stop : Char) (opens : Bool)
  /-- Behind the bracket that opens a class. -/
  | classStart
  /-- Behind the caret that begins a class. -/
  | classCaret
  /-- Behind the first entry of a class. -/
  | classRest
deriving DecidableEq, Repr

/-- The state of a pass over a pattern. -/
structure Scan where
  place : Place := .item
  /-- Are blanks and remarks passed over? -/
  verbose : Bool := false
  /-- The same for the groups around, the innermost first. -/
  outer : List Bool := []
  /-- Is the character before a backslash that belongs to the next one? -/
  pending : Bool := false
  /-- Is the character before an escaped backslash? -/
  slashed : Bool := false
  /-- Was it so at the opening parenthesis read last? -/
  guarded : Bool := false
  /-- The capturing groups opened so far. -/
  openings : Nat := 0
  /-- Those among them whose parenthesis stands behind an escaped backslash, or whose name is not
  made of word characters. -/
  missed : Nat := 0
  /-- The opening parentheses that stand in classes without a backslash. -/
  classParens : Nat := 0
  /-- The places where flags are set. -/
  flagged : Nat := 0
deriving DecidableEq, Repr

namespace Scan

/-- The inside of a group, in which blanks are passed over as said. -/
def enter (σ : Scan) (verbose : Bool) : Scan :=
  { σ with place := .item, verbose, outer := σ.verbose :: σ.outer }

/-- A capturing group is opened. -/
def capture (σ : Scan) (missed : Bool) : Scan :=
  { σ.enter σ.verbose with openings := σ.openings + 1, missed := σ.missed + missed.toNat }

/-- A token of a class. -/
def inClass (σ : Scan) (t : Token) : Scan :=
  { σ with place := .classRest, classParens := σ.classParens + (t == .plain '(').toNat }

/-- A token where an item may begin. -/
def atItem (σ : Scan) (t : Token) : Scan :=
  match t with
  | .plain '(' => { σ with place := .opened, guarded := σ.slashed }
  | .plain ')' =>
    { σ with place := .item, verbose := σ.outer.headD σ.verbose, outer := σ.outer.tail }
  | .plain '[' => { σ with place := .classStart }
  | .plain '#' => { σ with place := if σ.verbose then .passing '\n' false else .item }
  | _ => { σ with place := .item }

/-- A token behind `(?`. -/
def atQuestion (σ : Scan) (t : Token) : Scan :=
  match t with
  | .plain '#' => { σ with place := .passing ')' false }
  | .plain 'P' => { σ with place := .python }
  | .plain '<' => { σ with place := .angle }
  | .plain '(' => { σ with place := .passing ')' true }
  | .plain c =>
    if c = '-' ∨ (Flags.ofLetter? c).isSome then
      { σ with place := .flags (flagStep (false, σ.verbose) c), flagged := σ.flagged + 1 }
    else σ.enter σ.verbose
  | .escaped _ => σ.enter σ.verbose

/-- A token in the name of a group. -/
def atName (σ : Scan) (wordy : Bool) (t : Token) : Scan :=
  match t with
  | .plain '>' => σ.capture (σ.guarded || !wordy)
  | .plain c => { σ with place := .name (wordy && isWord c) }
  | .escaped _ => { σ with place := .name false }

/-- A token among letters of flags. -/
def atFlags (σ : Scan) (state : Bool × Bool) (t : Token) : Scan :=
  match t with
  | .plain ')' => { σ with place := .item, verbose := state.2 }
  | .plain ':' => σ.enter state.2
  | .plain c => { σ with place := .flags (flagStep state c) }
  | .escaped _ => σ

/-- A token at any place. -/
def atPlace (σ : Scan) (t : Token) : Scan :=
  match σ.place with
  | .item => σ.atItem t
  | .opened =>
    if t = .plain '?' then { σ with place := .question } else (σ.capture σ.guarded).atItem t
  | .question => σ.atQuestion t
  | .python => { σ with place := if t = .plain '<' then .name true else .passing ')' false }
  | .angle => σ.enter σ.verbose
  | .name wordy => σ.atName wordy t
  | .flags state => σ.atFlags state t
  | .passing stop opens =>
    if t ≠ .plain stop then σ else if opens then σ.enter σ.verbose else { σ with place := .item }
  | .classStart => if t = .plain '^' then { σ with place := .classCaret } else σ.inClass t
  | .classCaret => σ.inClass t
  | .classRest => if t = .plain ']' then { σ with place := .item } else σ.inClass t

/-- The state behind a token. -/
def next (σ : Scan) (t : Token) : Scan :=
  { σ.atPlace t with pending := false, slashed := t == .escaped '\\' }

/-- The state behind a character. -/
def step (σ : Scan) (c : Char) : Scan :=
  if σ.pending then { σ with pending := false }.next (.escaped c)
  else if c = '\\' then { σ with pending := true }
  else σ.next (.plain c)

/-- The state behind a text. -/
def past (σ : Scan) (s : List Char) : Scan :=
  s.foldl step σ

/-- The state behind tokens. -/
def after (σ : Scan) (ts : List Token) : Scan :=
  ts.foldl next σ

variable {σ : Scan} {t : Token} {ts us : List Token} {s : List Char}

theorem past_append (σ : Scan) (s s' : List Char) : σ.past (s ++ s') = (σ.past s).past s' :=
  List.foldl_append

@[simp] theorem after_nil (σ : Scan) : σ.after [] = σ :=
  rfl

@[simp] theorem after_cons (σ : Scan) (t : Token) (ts : List Token) :
    σ.after (t :: ts) = (σ.next t).after ts :=
  rfl

theorem after_append (σ : Scan) (ts us : List Token) :
    σ.after (ts ++ us) = (σ.after ts).after us :=
  List.foldl_append

theorem past_chars (h : σ.pending = false) (ht : t ≠ .plain '\\') : σ.past t.chars = σ.next t := by
  obtain ⟨place, verbose, outer, pending, slashed, guarded, openings, missed, parens, flagged⟩ := σ
  obtain rfl : pending = false := h
  cases t with
  | plain c =>
    have hc : c ≠ '\\' := fun h => ht (h ▸ rfl)
    simp [past, step, Token.chars, hc]
  | escaped c => simp [past, step, Token.chars]

/-- The pass over a text goes from token to token. -/
theorem past_written (h : σ.pending = false) (hts : ∀ t ∈ ts, t ≠ .plain '\\') :
    σ.past (written ts) = σ.after ts := by
  induction ts generalizing σ with
  | nil => rfl
  | cons t ts ih =>
    rw [written_cons, past_append, past_chars h (hts t (by simp)), after_cons,
      ih rfl fun u hu => hts u (List.mem_cons_of_mem _ hu)]

theorem past_spans {s₁ : List Char} (h : σ.pending = false) (hspans : Spans ts s s₁) :
    σ.past s = (σ.after ts).past s₁ := by
  rw [hspans.eq, past_append, past_written h hspans.tokens]

end Scan

/-- Do the tokens, behind an escaped backslash if so said, end with one? -/
def endsSlashed (slashed : Bool) (ts : List Token) : Bool :=
  ts.foldl (fun _ t => t == .escaped '\\') slashed

@[simp] theorem endsSlashed_cons (slashed : Bool) (t : Token) (ts : List Token) :
    endsSlashed slashed (t :: ts) = endsSlashed (t == .escaped '\\') ts :=
  rfl

theorem endsSlashed_append (slashed : Bool) (ts us : List Token) :
    endsSlashed slashed (ts ++ us) = endsSlashed (endsSlashed slashed ts) us :=
  List.foldl_append

@[simp] theorem endsSlashed_concat (slashed : Bool) (ts : List Token) (c : Char) :
    endsSlashed slashed (ts ++ [.plain c]) = false := by
  rw [endsSlashed_append]
  rfl

namespace Scan

variable {σ : Scan} {t : Token} {ts us : List Token} {s : List Char}

theorem slashed_after (σ : Scan) (ts : List Token) :
    (σ.after ts).slashed = endsSlashed σ.slashed ts := by
  induction ts generalizing σ with
  | nil => rfl
  | cons t ts ih => exact ih _

/-! ### Counting goes up -/

/-- Nothing that has been counted in the first state has been lost in the second. -/
structure Grows (σ σ' : Scan) : Prop where
  classParens : σ.classParens ≤ σ'.classParens
  flagged : σ.flagged ≤ σ'.flagged

theorem Grows.of_eq {σ σ' : Scan} (h : σ.classParens = σ'.classParens)
    (h' : σ.flagged = σ'.flagged) : σ.Grows σ' :=
  ⟨Nat.le_of_eq h, Nat.le_of_eq h'⟩

theorem Grows.trans {σ₁ σ₂ σ₃ : Scan} (h : σ₁.Grows σ₂) (h' : σ₂.Grows σ₃) : σ₁.Grows σ₃ :=
  ⟨Nat.le_trans h.1 h'.1, Nat.le_trans h.2 h'.2⟩

theorem grows_atPlace (σ : Scan) (t : Token) : σ.Grows (σ.atPlace t) := by
  have hitem : ∀ σ : Scan, σ.Grows (σ.atItem t) := by
    intro σ
    unfold atItem
    split <;> exact .of_eq rfl rfl
  have hclass : σ.Grows (σ.inClass t) := ⟨Nat.le_add_right _ _, Nat.le_refl _⟩
  unfold atPlace
  split
  case h_1 => exact hitem σ
  case h_2 =>
    split
    · exact .of_eq rfl rfl
    · have hcapture : σ.Grows (σ.capture σ.guarded) := .of_eq rfl rfl
      exact hcapture.trans (hitem _)
  case h_3 =>
    unfold atQuestion
    split
    case h_5 =>
      split
      · exact ⟨Nat.le_refl _, Nat.le_succ _⟩
      · exact .of_eq rfl rfl
    all_goals exact .of_eq rfl rfl
  case h_6 =>
    unfold atName
    split <;> exact .of_eq rfl rfl
  case h_7 =>
    unfold atFlags
    split <;> exact .of_eq rfl rfl
  case h_8 =>
    split
    · exact .of_eq rfl rfl
    split <;> exact .of_eq rfl rfl
  case h_9 =>
    split
    · exact .of_eq rfl rfl
    · exact hclass
  case h_10 => exact hclass
  case h_11 =>
    split
    · exact .of_eq rfl rfl
    · exact hclass
  all_goals exact .of_eq rfl rfl

theorem grows_next (σ : Scan) (t : Token) : σ.Grows (σ.next t) :=
  .trans (grows_atPlace σ t) (.of_eq rfl rfl)

theorem grows_past (σ : Scan) (s : List Char) : σ.Grows (σ.past s) := by
  induction s generalizing σ with
  | nil => exact .of_eq rfl rfl
  | cons c s ih =>
    refine .trans ?_ (ih (σ.step c))
    unfold step
    split
    · have hclear : σ.Grows { σ with pending := false } := .of_eq rfl rfl
      exact hclear.trans (grows_next _ _)
    split
    · exact .of_eq rfl rfl
    · exact grows_next σ _

/-! ### Runs of tokens -/

/-- The state with another place. -/
def moved (σ : Scan) (place : Place) (slashed : Bool) : Scan :=
  { σ with place, slashed, pending := false }

theorem moved_self {here : Place} (hplace : σ.place = here) (hpending : σ.pending = false) :
    σ.moved here σ.slashed = σ := by
  simp only [moved, ← hplace, ← hpending]

/-- A token that is no parenthesis and opens nothing leaves the pass where it is. -/
theorem next_item (hplace : σ.place = .item)
    (ht : t ∉ [.plain '(', .plain ')', .plain '[']) (hsign : t = .plain '#' → σ.verbose = false) :
    σ.next t = σ.moved .item (t == .escaped '\\') := by
  have hitem : σ.atItem t = { σ with place := .item } := by
    unfold atItem
    split
    · simp at ht
    · simp at ht
    · simp at ht
    · simp [hsign rfl]
    · rfl
  simp only [next, atPlace, hplace, hitem, moved]

theorem after_items (hplace : σ.place = .item) (hpending : σ.pending = false)
    (hts : ∀ t ∈ ts, t ∉ [Token.plain '(', .plain ')', .plain '[', .plain '#']) :
    σ.after ts = σ.moved .item (endsSlashed σ.slashed ts) := by
  induction ts generalizing σ with
  | nil => exact (moved_self hplace hpending).symm
  | cons t ts ih =>
    have ht := hts t (by simp)
    simp only [List.mem_cons, not_or] at ht
    rw [after_cons, next_item hplace (by simp [ht]) (fun h => absurd h ht.2.2.2.1),
      ih rfl rfl fun u hu => hts u (List.mem_cons_of_mem _ hu)]
    rfl

theorem not_sign_of_isHarmless (h : t.IsHarmless) :
    t ∉ [Token.plain '(', .plain ')', .plain '[', .plain '#'] := by
  obtain ⟨c, rfl, hc⟩ := h
  simp only [List.mem_cons, List.not_mem_nil, or_false, not_or, Token.plain.injEq] at hc ⊢
  exact ⟨hc.2.1, hc.2.2.1, hc.2.2.2.1, hc.2.2.2.2.2.2⟩

/-- Text that is passed over, up to the sign that ends it. -/
theorem after_passing {stop : Char} {opens : Bool} (hplace : σ.place = .passing stop opens)
    (hpending : σ.pending = false) (hts : .plain stop ∉ ts) :
    σ.after ts = σ.moved (.passing stop opens) (endsSlashed σ.slashed ts) := by
  induction ts generalizing σ with
  | nil => exact (moved_self hplace hpending).symm
  | cons t ts ih =>
    simp only [List.mem_cons, not_or] at hts
    have hnext : σ.next t = σ.moved (.passing stop opens) (t == .escaped '\\') := by
      simp only [next, atPlace, hplace, if_pos (Ne.symm hts.1), moved]
    rw [after_cons, hnext, ih rfl rfl hts.2]
    rfl

theorem after_classRest (hplace : σ.place = .classRest) (hpending : σ.pending = false)
    (hts : .plain ']' ∉ ts) :
    σ.after ts = { σ.moved .classRest (endsSlashed σ.slashed ts) with
      classParens := σ.classParens + ts.count (.plain '(') } := by
  induction ts generalizing σ with
  | nil => exact (moved_self hplace hpending).symm
  | cons t ts ih =>
    simp only [List.mem_cons, not_or] at hts
    have hnext : σ.next t = { σ.moved .classRest (t == .escaped '\\') with
        classParens := σ.classParens + (t == .plain '(').toNat } := by
      simp only [next, atPlace, hplace, if_neg (Ne.symm hts.1), inClass, moved]
    have hcount : (t == .plain '(').toNat + ts.count (.plain '(') =
        (t :: ts).count (.plain '(') := by
      rw [List.count_cons, Nat.add_comm]
      cases t == .plain '(' <;> rfl
    rw [after_cons, hnext, ih rfl rfl hts.2, ← hcount, ← Nat.add_assoc]
    rfl

/-- A class, from its opening bracket to its closing one. -/
theorem after_class (hplace : σ.place = .item) (hts : IsClass ts) :
    σ.after (.plain '[' :: ts) = { σ.moved .item false with
      classParens := σ.classParens + ts.count (.plain '(') } := by
  have hopen : σ.next (.plain '[') = σ.moved .classStart false := by
    simp only [next, atPlace, hplace, atItem, moved]
    rfl
  -- behind the first entry, from where on the first closing bracket ends the class
  have hrest : ∀ {σ : Scan} {us : List Token}, σ.place = .classRest → σ.pending = false →
      UpToBracket true us → σ.after us = { σ.moved .item false with
        classParens := σ.classParens + us.count (.plain '(') } := by
    rintro σ _ hplace hpending ⟨us, rfl, hus⟩
    rw [after_append, after_classRest hplace hpending hus, List.count_append]
    rfl
  rw [after_cons, hopen]
  cases hts with
  | negated first h =>
    rw [after_cons, after_cons, List.count_cons, List.count_cons]
    have hfirst : ((σ.moved .classStart false).next (.plain '^')).next first =
        { σ.moved .classRest (first == .escaped '\\') with
          classParens := σ.classParens + (first == .plain '(').toNat } := rfl
    rw [hfirst, hrest rfl rfl h]
    simp only [moved]
    cases first == .plain '(' with
    | false => simp
    | true => simp; omega
  | plain hfirst h =>
    rename_i first us
    have hnext : (σ.moved .classStart false).next first =
        { σ.moved .classRest (first == .escaped '\\') with
          classParens := σ.classParens + (first == .plain '(').toNat } := by
      simp only [next, atPlace, moved, if_neg hfirst, inClass]
    rw [after_cons, hnext, hrest rfl rfl h, List.count_cons]
    simp only [moved]
    cases first == .plain '(' with
    | false => simp
    | true => simp; omega

theorem after_name {wordy : Bool} {cs : List Char} (hplace : σ.place = .name wordy)
    (hpending : σ.pending = false) (hcs : '>' ∉ cs) :
    σ.after (cs.map .plain) = σ.moved (.name (wordy && cs.all isWord))
      (endsSlashed σ.slashed (cs.map .plain)) := by
  induction cs generalizing σ wordy with
  | nil => exact (moved_self (by simpa using hplace) hpending).symm
  | cons c cs ih =>
    simp only [List.mem_cons, not_or] at hcs
    have hnext : σ.next (.plain c) = σ.moved (.name (wordy && isWord c)) false := by
      have hname : σ.atName wordy (.plain c) = { σ with place := .name (wordy && isWord c) } := by
        unfold atName
        split
        next heq => exact absurd (Token.plain.inj heq).symm hcs.1
        next heq => cases heq; rfl
        next heq => cases heq
      simp only [next, atPlace, hplace, hname, moved]
      rfl
    rw [List.map_cons, after_cons, hnext, ih rfl rfl hcs.2, List.all_cons, Bool.and_assoc]
    rfl

theorem after_flags {state : Bool × Bool} {cs : List Char} (hplace : σ.place = .flags state)
    (hpending : σ.pending = false) (hclose : ')' ∉ cs) (hcolon : ':' ∉ cs) :
    σ.after (cs.map .plain) = σ.moved (.flags (cs.foldl flagStep state))
      (endsSlashed σ.slashed (cs.map .plain)) := by
  induction cs generalizing σ state with
  | nil => exact (moved_self hplace hpending).symm
  | cons c cs ih =>
    simp only [List.mem_cons, not_or] at hclose hcolon
    have hnext : σ.next (.plain c) = σ.moved (.flags (flagStep state c)) false := by
      have hflags : σ.atFlags state (.plain c) =
          { σ with place := .flags (flagStep state c) } := by
        unfold atFlags
        split
        next heq => exact absurd (Token.plain.inj heq).symm hclose.1
        next heq => exact absurd (Token.plain.inj heq).symm hcolon.1
        next heq => cases heq; rfl
        next heq => cases heq
      simp only [next, atPlace, hplace, hflags, moved]
      rfl
    rw [List.map_cons, after_cons, hnext, ih rfl rfl hclose.2 hcolon.2]
    rfl

/-! ### What an opening parenthesis begins -/

theorem next_paren (hplace : σ.place = .item) :
    σ.next (.plain '(') = { σ.moved .opened false with guarded := σ.slashed } := by
  simp only [next, atPlace, hplace, atItem, moved]
  rfl

theorem next_close (hplace : σ.place = .item) :
    σ.next (.plain ')') = { σ.moved .item false with
      verbose := σ.outer.headD σ.verbose, outer := σ.outer.tail } := by
  simp only [next, atPlace, hplace, atItem, moved]
  rfl

/-- A plain group. -/
theorem next_opened (hplace : σ.place = .opened) (ht : t ≠ .plain '?') :
    σ.next t = (σ.capture σ.guarded).next t := by
  simp only [next, atPlace, hplace, if_neg ht]
  rfl

theorem next_question (hplace : σ.place = .opened) :
    σ.next (.plain '?') = σ.moved .question false := by
  simp only [next, atPlace, hplace, ↓reduceIte, moved]
  rfl

/-- A named group. -/
theorem after_named {cs : List Char} (hplace : σ.place = .opened) (hcs : '>' ∉ cs) :
    σ.after (.plain '?' :: .plain 'P' :: .plain '<' :: (cs.map Token.plain ++ [.plain '>'])) =
      (σ.capture (σ.guarded || !cs.all isWord)).moved .item false := by
  have hstart : ((σ.moved .question false).next (.plain 'P')).next (.plain '<') =
      σ.moved (.name true) false := rfl
  rw [after_cons, next_question hplace, after_cons, after_cons, hstart, after_append,
    after_name rfl rfl hcs]
  rfl

/-- A reference to a named group. -/
theorem after_reference (hplace : σ.place = .opened) (hts : .plain ')' ∉ ts) :
    σ.after (.plain '?' :: .plain 'P' :: .plain '=' :: (ts ++ [.plain ')'])) =
      σ.moved .item false := by
  have hstart : ((σ.moved .question false).next (.plain 'P')).next (.plain '=') =
      σ.moved (.passing ')' false) false := rfl
  rw [after_cons, next_question hplace, after_cons, after_cons, hstart, after_append,
    after_passing rfl rfl hts]
  rfl

theorem after_comment (hplace : σ.place = .opened) (hts : .plain ')' ∉ ts) :
    σ.after (.plain '?' :: .plain '#' :: (ts ++ [.plain ')'])) = σ.moved .item false := by
  have hstart : (σ.moved .question false).next (.plain '#') =
      σ.moved (.passing ')' false) false := rfl
  rw [after_cons, next_question hplace, after_cons, hstart, after_append,
    after_passing rfl rfl hts]
  rfl

/-- A condition on a group. -/
theorem after_condition (hplace : σ.place = .opened) (hts : .plain ')' ∉ ts) :
    σ.after (.plain '?' :: .plain '(' :: (ts ++ [.plain ')'])) =
      (σ.enter σ.verbose).moved .item false := by
  have hstart : (σ.moved .question false).next (.plain '(') =
      σ.moved (.passing ')' true) false := rfl
  rw [after_cons, next_question hplace, after_cons, hstart, after_append,
    after_passing rfl rfl hts]
  rfl

/-- A group that captures nothing, or an assertion about what follows. -/
theorem after_sign {c : Char} (hplace : σ.place = .opened) (hc : c ∈ [':', '=', '!', '>']) :
    σ.after [.plain '?', .plain c] = (σ.enter σ.verbose).moved .item false := by
  rw [after_cons, next_question hplace, after_cons, after_nil]
  simp only [List.mem_cons, List.not_mem_nil, or_false] at hc
  obtain rfl | rfl | rfl | rfl := hc <;> rfl

/-- An assertion about what comes before. -/
theorem after_angle {c : Char} (hplace : σ.place = .opened) :
    σ.after [.plain '?', .plain '<', .plain c] = (σ.enter σ.verbose).moved .item false := by
  have hstart : (σ.moved .question false).next (.plain '<') = σ.moved .angle false := rfl
  rw [after_cons, next_question hplace, after_cons, hstart]
  rfl

/-- The first sign of flags is none of the signs of other groups. -/
theorem next_flag {c : Char} (hc : c = '-' ∨ (Flags.ofLetter? c).isSome) :
    (σ.moved .question false).next (.plain c) =
      { σ.moved (.flags (flagStep (false, σ.verbose) c)) false with flagged := σ.flagged + 1 } := by
  have hother : ∀ d ∈ ['#', 'P', '<', '('], c ≠ d := by
    rintro d hd rfl
    have hnot : ∀ d ∈ ['#', 'P', '<', '('], d ≠ '-' ∧ Flags.ofLetter? d = none :=
      forall_mem_of_all (by decide)
    obtain ⟨hminus, hletter⟩ := hnot _ hd
    simp [hminus, hletter] at hc
  have hflags : (σ.moved .question false).atQuestion (.plain c) =
      { σ.moved (.flags (flagStep (false, σ.verbose) c)) false with
        flagged := σ.flagged + 1 } := by
    unfold atQuestion
    split
    next heq => exact absurd (Token.plain.inj heq) (hother _ (by simp))
    next heq => exact absurd (Token.plain.inj heq) (hother _ (by simp))
    next heq => exact absurd (Token.plain.inj heq) (hother _ (by simp))
    next heq => exact absurd (Token.plain.inj heq) (hother _ (by simp))
    next heq =>
      cases heq
      rw [if_pos hc]
      rfl
    next heq => cases heq
  simp only [next, atPlace, moved] at hflags ⊢
  rw [hflags]
  rfl

/-- Flags for a group or for the whole pattern. -/
theorem after_groupFlags {c : Char} {found : Flags × Option Flags} (hplace : σ.place = .opened)
    (hc : c = '-' ∨ (Flags.ofLetter? c).isSome) (hts : AreFlagSigns c found ts) :
    σ.after (.plain '?' :: .plain c :: ts) =
      match found with
      | (added, some dropped) =>
        ({ σ with flagged := σ.flagged + 1 }.enter
          ((σ.verbose || added.verbose) && !dropped.verbose)).moved .item false
      | (added, none) =>
        { σ.moved .item false with
          verbose := σ.verbose || added.verbose, flagged := σ.flagged + 1 } := by
  obtain ⟨body, rfl, hsigns, hstate⟩ := hts
  rw [after_cons, next_question hplace, after_cons, next_flag hc, after_append,
    after_flags rfl rfl (hsigns _ (by simp)) (hsigns _ (by simp))]
  have hverbose := hstate σ.verbose
  rw [List.foldl_cons] at hverbose
  generalize List.foldl flagStep (flagStep (false, σ.verbose) c) body = state at hverbose ⊢
  obtain ⟨added, _ | dropped⟩ := found
  · have hverbose : state.2 = (σ.verbose || added.verbose) := by simpa using hverbose
    simp only [moved, ← hverbose]
    rfl
  · have hverbose : state.2 = ((σ.verbose || added.verbose) && !dropped.verbose) := hverbose
    simp only [moved, ← hverbose]
    rfl

end Scan

end StepTrace.Regex
