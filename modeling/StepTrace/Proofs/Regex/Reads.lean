import StepTrace.Proofs.Regex.Textual

/-!
# Reading as a relation

The mutual recursion that reads a pattern is driven by fuel.  `Reads` says what it does without: one
rule for each way in which a part of a pattern can be read.  A run is an instance of the relation
(`reads_of_run`), and whatever stands in the relation is read with fuel for the text that it takes
(`Reads.run`).
-/

namespace StepTrace.Regex.Reader

/-! ## Tasks -/

/-- What the reader is asked to read. -/
inductive Task where
  | alternatives (scope : Option Flags) (first : Bool)
  | branches (scope : Option Flags) (first : Bool)
  | sequence (scope : Option Flags) (first : Bool) (items : List Item)
  | parenthesis (flags : Flags) (flagsAllowed : Bool)
  | enclosed (flags : Flags)

/-- What a task results in. -/
abbrev Task.Out : Task → Type
  | alternatives _ _ => List Expr
  | branches _ _ => List (List Expr)
  | sequence _ _ _ => List Expr
  | parenthesis _ _ => Option Item
  | enclosed _ => List Expr

def Task.run : (task : Task) → (fuel : Nat) → Reader task.Out
  | alternatives scope first, fuel => Reader.alternatives scope fuel first
  | branches scope first, fuel => Reader.branches scope fuel first
  | sequence scope first items, fuel => Reader.sequence scope fuel first items
  | parenthesis flags flagsAllowed, fuel => Reader.parenthesis flags fuel flagsAllowed
  | enclosed flags, fuel => Reader.enclosed flags fuel

/-! ## The relation -/

/-- The item of a character that neither brackets nor repeats; a blank leaves none where blanks do
not count. -/
def singleItem (flags : Flags) (c : Char) : Option Item :=
  if flags.verbose && isVerboseBlank c then none
  else if c = '.' then some (.ofExpr (.one (.any flags.dotAll)))
  else if c = '^' then some (.ofAnchor (.caret flags.multiline))
  else if c = '$' then some (.ofAnchor (.dollar flags.multiline))
  else some (.code flags c.toNat)

/-- The last item, repeated. -/
def loopItem (mode : LoopMode) (least : Nat) (most : Option Nat) (last : Item) : Item :=
  ⟨[.loop mode least most (.sequence last.parts)], .loop⟩

/-- The state in which the body of a look-behind is read. -/
def enterBehind (r : Reading) : Reading :=
  if r.behind.isNone then { r with behind := some (r.widths.size + 1) } else r

/-- The state behind the body of a look-behind that was entered in the state `outer`. -/
def leaveBehind (outer r : Reading) : Reading :=
  if outer.behind.isNone then { r with behind := none } else r

/-- The widths of the closed groups. -/
def widthsOf (r : Reading) : Nat → Width := fun number =>
  ((r.widths[number - 1]?).join).getD (.exactly 0)

/-- The state behind a look-behind, which is kept in mind if it has no fixed width. -/
def markUnfixed (width : Width) (r : Reading) : Reading :=
  if width.most ≠ some width.least ∨ repetitionLimit < width.least then { r with unfixed := true }
  else r

/-- The sign behind `(?` or `(?<` for an assertion. -/
def assertionSign (negated : Bool) : Token :=
  .plain (if negated then '!' else '=')

/-- From the first state to the second the task is read with the result. -/
inductive Reads : (task : Task) → Reading → task.Out → Reading → Prop
  | alternatives {scope first r found r₁} (h : Reads (.branches scope first) r found r₁) :
      Reads (.alternatives scope first) r (Expr.joined (scope.getD r₁.flags).folding found) r₁
  | lastBranch {scope first r parts r₁} (h : Reads (.sequence scope first []) r parts r₁)
      (hnext : next? r₁ ≠ some (.plain '|')) : Reads (.branches scope first) r [parts] r₁
  | branch {scope first r parts r₁ r₂ others r₃} (h : Reads (.sequence scope first []) r parts r₁)
      (hbar : Takes (.plain '|') r₁ r₂) (hothers : Reads (.branches scope false) r₂ others r₃) :
      Reads (.branches scope first) r (parts :: others) r₃
  | done {scope first items r}
      (hnext : next? r = none ∨ next? r = some (.plain '|') ∨ next? r = some (.plain ')')) :
      Reads (.sequence scope first items) r (items.reverse.flatMap (·.parts)) r
  | escape {scope first items r c r₁ item r₂ parts r₃} (htake : Takes (.escaped c) r r₁)
      (hitem : (escape (scope.getD r.flags) c).run r₁ = .ok (item, r₂))
      (h : Reads (.sequence scope first (item :: items)) r₂ parts r₃) :
      Reads (.sequence scope first items) r parts r₃
  | remark {scope first items r r₁ r₂ parts r₃} (htake : Takes (.plain '#') r r₁)
      (hverbose : (scope.getD r.flags).verbose = true)
      (hskip : (skipPast '\n' true (r₁.rest.length + 1)).run r₁ = .ok ((), r₂))
      (h : Reads (.sequence scope first items) r₂ parts r₃) :
      Reads (.sequence scope first items) r parts r₃
  | charClass {scope first items r r₁ item r₂ parts r₃} (htake : Takes (.plain '[') r r₁)
      (hitem : (charClass (scope.getD r.flags)).run r₁ = .ok (item, r₂))
      (h : Reads (.sequence scope first (item :: items)) r₂ parts r₃) :
      Reads (.sequence scope first items) r parts r₃
  | loop {scope first last items r c r₁ least most r₂ mode r₃ parts r₄}
      (htake : Takes (.plain c) r r₁) (hc : c ∈ ['?', '*', '+', '{'])
      (hcounts : (counts? c).run r₁ = .ok (some (least, most), r₂))
      (hlast : last.kind = .repeatable) (hmode : loopMode.run r₂ = .ok (mode, r₃))
      (h : Reads (.sequence scope first (loopItem mode least most last :: items)) r₃ parts r₄) :
      Reads (.sequence scope first (last :: items)) r parts r₄
  | brace {scope first items r r₁ r₂ parts r₃} (htake : Takes (.plain '{') r r₁)
      (hcounts : bracedCounts?.run r₁ = .ok (none, r₂))
      (h : Reads (.sequence scope first (.code (scope.getD r.flags) '{'.toNat :: items)) r₂ parts r₃) :
      Reads (.sequence scope first items) r parts r₃
  | single {scope first items r c r₁ parts r₂} (htake : Takes (.plain c) r r₁)
      (hc : c ∉ ['|', ')', '[', '?', '*', '+', '{', '('])
      (hsign : c = '#' → (scope.getD r.flags).verbose = false)
      (h : Reads (.sequence scope first ((singleItem (scope.getD r.flags) c).toList ++ items))
        r₁ parts r₂) :
      Reads (.sequence scope first items) r parts r₂
  | group {scope first items r r₁ item r₂ parts r₃} (htake : Takes (.plain '(') r r₁)
      (hopen : Reads (.parenthesis (scope.getD r.flags) (first && items.isEmpty)) r₁ item r₂)
      (h : Reads (.sequence scope first (item.toList ++ items)) r₂ parts r₃) :
      Reads (.sequence scope first items) r parts r₃
  | captured {flags flagsAllowed r number r₁ parts r₂ r₃} (hnext : next? r ≠ some (.plain '?'))
      (hopen : (openGroup none).run r = .ok (number, r₁)) (h : Reads (.enclosed flags) r₁ parts r₂)
      (hclose : (closeGroup number (.sequence parts)).run r₂ = .ok ((), r₃)) :
      Reads (.parenthesis flags flagsAllowed) r
        (some (.ofExpr (.group number (.sequence parts)))) r₃
  | named {flags flagsAllowed r r₁ r₂ r₃ name r₄ number r₅ parts r₆ r₇}
      (hsign : Takes (.plain '?') r r₁) (hletter : Takes (.plain 'P') r₁ r₂)
      (hangle : Takes (.plain '<') r₂ r₃) (hname : (groupName '>').run r₃ = .ok (name, r₄))
      (hopen : (openGroup (some name)).run r₄ = .ok (number, r₅))
      (h : Reads (.enclosed flags) r₅ parts r₆)
      (hclose : (closeGroup number (.sequence parts)).run r₆ = .ok ((), r₇)) :
      Reads (.parenthesis flags flagsAllowed) r
        (some (.ofExpr (.group number (.sequence parts)))) r₇
  | reference {flags flagsAllowed r r₁ r₂ r₃ name r₄ number e r₅}
      (hsign : Takes (.plain '?') r r₁) (hletter : Takes (.plain 'P') r₁ r₂)
      (hequals : Takes (.plain '=') r₂ r₃) (hname : (groupName ')').run r₃ = .ok (name, r₄))
      (hnumber : r₄.names.lookup name = some number)
      (href : (backReference flags number).run r₄ = .ok (e, r₅)) :
      Reads (.parenthesis flags flagsAllowed) r (some (.ofExpr e)) r₅
  | plain {flags flagsAllowed r r₁ r₂ parts r₃} (hsign : Takes (.plain '?') r r₁)
      (hcolon : Takes (.plain ':') r₁ r₂) (h : Reads (.enclosed flags) r₂ parts r₃) :
      Reads (.parenthesis flags flagsAllowed) r (some { parts }) r₃
  | comment {flags flagsAllowed r r₁ r₂ r₃} (hsign : Takes (.plain '?') r r₁)
      (hmark : Takes (.plain '#') r₁ r₂)
      (hskip : (skipPast ')' false (r₂.rest.length + 1)).run r₂ = .ok ((), r₃)) :
      Reads (.parenthesis flags flagsAllowed) r none r₃
  | ahead {flags flagsAllowed negated r r₁ r₂ parts r₃} (hsign : Takes (.plain '?') r r₁)
      (hmark : Takes (assertionSign negated) r₁ r₂) (h : Reads (.enclosed flags) r₂ parts r₃) :
      Reads (.parenthesis flags flagsAllowed) r
        (some (.ofExpr (.ahead negated (.sequence parts)))) r₃
  | behind {flags flagsAllowed negated r r₁ r₂ r₃ parts r₄ r₅} (hsign : Takes (.plain '?') r r₁)
      (hangle : Takes (.plain '<') r₁ r₂) (hmark : Takes (assertionSign negated) r₂ r₃)
      (h : Reads (.alternatives (some flags) false) (enterBehind r₃) parts r₄)
      (hend : Takes (.plain ')') (leaveBehind r₃ r₄) r₅) :
      Reads (.parenthesis flags flagsAllowed) r
        (some (.ofExpr (.behind negated ((Expr.sequence parts).width (widthsOf r₅)).least
          (.sequence parts))))
        (markUnfixed ((Expr.sequence parts).width (widthsOf r₅)) r₅)
  | condition {flags flagsAllowed r r₁ r₂ number r₃ r₄ yes r₅ r₆}
      (hsign : Takes (.plain '?') r r₁) (hmark : Takes (.plain '(') r₁ r₂)
      (hgroup : conditionGroup.run r₂ = .ok (number, r₃))
      (hbehind : (checkBehind number).run r₃ = .ok ((), r₄))
      (hyes : Reads (.sequence (some flags) false []) r₄ yes r₅)
      (hend : Takes (.plain ')') r₅ r₆) :
      Reads (.parenthesis flags flagsAllowed) r
        (some (.ofExpr (.ifGroup number (.sequence yes) .empty))) r₆
  | conditionElse {flags flagsAllowed r r₁ r₂ number r₃ r₄ yes r₅ r₆ no r₇ r₈}
      (hsign : Takes (.plain '?') r r₁) (hmark : Takes (.plain '(') r₁ r₂)
      (hgroup : conditionGroup.run r₂ = .ok (number, r₃))
      (hbehind : (checkBehind number).run r₃ = .ok ((), r₄))
      (hyes : Reads (.sequence (some flags) false []) r₄ yes r₅)
      (hbar : Takes (.plain '|') r₅ r₆) (hno : Reads (.sequence (some flags) false []) r₆ no r₇)
      (hend : Takes (.plain ')') r₇ r₈) :
      Reads (.parenthesis flags flagsAllowed) r
        (some (.ofExpr (.ifGroup number (.sequence yes) (.sequence no)))) r₈
  | atomic {flags flagsAllowed r r₁ r₂ parts r₃} (hsign : Takes (.plain '?') r r₁)
      (hmark : Takes (.plain '>') r₁ r₂) (h : Reads (.enclosed flags) r₂ parts r₃) :
      Reads (.parenthesis flags flagsAllowed) r (some (.ofExpr (.atomic (.sequence parts)))) r₃
  | setFlags {flags r r₁ c r₂ r₃} (hsign : Takes (.plain '?') r r₁)
      (hletter : Takes (.plain c) r₁ r₂) (hc : c = '-' ∨ (Flags.ofLetter? c).isSome)
      (hflags : (groupFlags c).run r₂ = .ok (none, r₃)) :
      Reads (.parenthesis flags true) r none r₃
  | flagged {flags flagsAllowed r r₁ c r₂ added dropped r₃ parts r₄}
      (hsign : Takes (.plain '?') r r₁) (hletter : Takes (.plain c) r₁ r₂)
      (hc : c = '-' ∨ (Flags.ofLetter? c).isSome)
      (hflags : (groupFlags c).run r₂ = .ok (some (added, dropped), r₃))
      (h : Reads (.enclosed (flags.inGroup added dropped)) r₃ parts r₄) :
      Reads (.parenthesis flags flagsAllowed) r (some (.ofExpr (.flagged (.sequence parts)))) r₄
  | enclosed {flags r parts r₁ r₂} (h : Reads (.alternatives (some flags) false) r parts r₁)
      (hend : Takes (.plain ')') r₁ r₂) : Reads (.enclosed flags) r parts r₂

/-! ## A run is an instance of the relation -/

/-- What a plain token adds to the items; `inner` reads what an opening parenthesis begins. -/
def plainItems (flags : Flags) (c : Char) (items : List Item) (inner : Reader (Option Item)) :
    Reader (List Item) := do
  if flags.verbose && isVerboseBlank c then return items
  else if flags.verbose && c == '#' then
    skipPast '\n' true ((← get).rest.length + 1)
    return items
  else if c == '[' then return (← charClass flags) :: items
  else if c == '?' || c == '*' || c == '+' || c == '{' then
    match ← counts? c with
    | none => return .code flags c.toNat :: items
    | some (least, most) => repeatLast least most items
  else if c == '.' then return .ofExpr (.one (.any flags.dotAll)) :: items
  else if c == '^' then return .ofAnchor (.caret flags.multiline) :: items
  else if c == '$' then return .ofAnchor (.dollar flags.multiline) :: items
  else if c == '(' then return (← inner).toList ++ items
  else return .code flags c.toNat :: items

theorem sequence_succ (scope : Option Flags) (fuel : Nat) (first : Bool) (items : List Item) :
    sequence scope (fuel + 1) first items = (do
      let flags ← scopeFlags scope
      let done := items.reverse.flatMap (·.parts)
      match ← peek with
      | none => return done
      | some (.plain '|') => return done
      | some (.plain ')') => return done
      | some (.escaped c) => do
        let _ ← token
        let item ← escape flags c
        sequence scope fuel first (item :: items)
      | some (.plain c) => do
        let _ ← token
        let items ← plainItems flags c items (parenthesis flags fuel (first && items.isEmpty))
        sequence scope fuel first items) := by
  rw [sequence]
  refine bind_congr fun flags => bind_congr fun next => ?_
  obtain _ | c | c := next
  case some.plain =>
    by_cases hbar : c = '|'
    · subst hbar
      rfl
    by_cases hend : c = ')'
    · subst hend
      rfl
    simp only
    refine bind_congr fun _ => ?_
    unfold plainItems
    -- one condition after the other, in the order of both sides
    by_cases h₁ : (flags.verbose && isVerboseBlank c) = true
    · simp only [h₁, ↓reduceIte, pure_bind]
    by_cases h₂ : (flags.verbose && c == '#') = true
    · simp only [h₁, h₂, ↓reduceIte, bind_assoc, pure_bind, Bool.false_eq_true]
    by_cases h₃ : (c == '[') = true
    · simp only [h₁, h₂, h₃, ↓reduceIte, bind_assoc, pure_bind, Bool.false_eq_true]
    by_cases h₄ : (c == '?' || c == '*' || c == '+' || c == '{') = true
    · simp only [h₁, h₂, h₃, h₄, ↓reduceIte, bind_assoc, Bool.false_eq_true]
      refine bind_congr fun found => ?_
      cases found <;> rfl
    simp only [h₁, h₂, h₃, h₄, ↓reduceIte, Bool.false_eq_true]
    split
    · rw [pure_bind]
    split
    · rw [pure_bind]
    split
    · rw [pure_bind]
    split
    · rw [bind_assoc]
      refine bind_congr fun item => ?_
      cases item <;> rw [pure_bind] <;> rfl
    · rw [pure_bind]
  all_goals rfl

/-- The characters that do more in a sequence than to stand for themselves. -/
abbrev sequenceSigns : List Char :=
  ['|', ')', '[', '?', '*', '+', '{', '(']

theorem not_mem_of_isVerboseBlank {c : Char} (h : isVerboseBlank c = true) :
    c ∉ '#' :: sequenceSigns := by
  intro hmem
  have hnot : ∀ d ∈ '#' :: sequenceSigns, isVerboseBlank d = false := forall_mem_of_all (by decide)
  simp [hnot c hmem] at h

/-- Only a brace may give no counts. -/
theorem counts?_eq_none {c : Char} (hc : c ∈ ['?', '*', '+', '{']) {r r₁ : Reading}
    (h : (counts? c).run r = .ok (none, r₁)) : c = '{' := by
  simp only [List.mem_cons, List.not_mem_nil, or_false] at hc
  obtain rfl | rfl | rfl | rfl := hc
  · cases h
  · cases h
  · cases h
  · rfl

theorem reads_of_plainItems {scope : Option Flags} {first : Bool} {items items' : List Item}
    {r r₁ r₂ r₃ : Reading} {c : Char} {inner : Reader (Option Item)} {parts : List Expr}
    (htake : Takes (.plain c) r r₁) (hbar : c ≠ '|') (hend : c ≠ ')')
    (hinner : ∀ item r', inner.run r₁ = .ok (item, r') →
      Reads (.parenthesis (scope.getD r.flags) (first && items.isEmpty)) r₁ item r')
    (hitems : (plainItems (scope.getD r.flags) c items inner).run r₁ = .ok (items', r₂))
    (h : Reads (.sequence scope first items') r₂ parts r₃) :
    Reads (.sequence scope first items) r parts r₃ := by
  have hsingle : ∀ item : Option Item, c ∉ sequenceSigns →
      (c = '#' → (scope.getD r.flags).verbose = false) → singleItem (scope.getD r.flags) c = item →
      (pure (item.toList ++ items) : Reader (List Item)).run r₁ = .ok (items', r₂) →
      Reads (.sequence scope first items) r parts r₃ := by
    rintro item hc hsign rfl hpure
    cases hpure
    exact .single htake hc hsign h
  unfold plainItems at hitems
  split at hitems
  next hblank =>
    have hnot := not_mem_of_isVerboseBlank (Bool.and_eq_true_iff.mp hblank).2
    simp only [List.mem_cons, not_or] at hnot
    exact hsingle none (by simp [hnot]) (fun heq => absurd heq hnot.1)
      (by simp [singleItem, hblank]) hitems
  next hblank =>
  split at hitems
  next hremark =>
    simp only [Bool.and_eq_true, beq_iff_eq] at hremark
    obtain ⟨hverbose, rfl⟩ := hremark
    obtain ⟨_, _, hget, hskip⟩ := run_bind_eq_ok.mp hitems
    cases hget
    obtain ⟨_, _, hskip, hpure⟩ := run_bind_eq_ok.mp hskip
    cases hpure
    exact .remark htake hverbose hskip h
  next hremark =>
  split at hitems
  next hclass =>
    obtain rfl : c = '[' := by simpa using hclass
    obtain ⟨item, _, hitem, hpure⟩ := run_bind_eq_ok.mp hitems
    cases hpure
    exact .charClass htake hitem h
  next hclass =>
  split at hitems
  next hloop =>
    -- counts repeat the last item; only a brace may turn out to be none
    obtain ⟨found, r', hcounts, hitems⟩ := run_bind_eq_ok.mp hitems
    have hc : c ∈ ['?', '*', '+', '{'] := by simpa [or_assoc] using hloop
    cases found with
    | none =>
      cases hitems
      have hnone := (run_counts?_eq_ok hcounts).1 rfl
      obtain rfl : c = '{' := counts?_eq_none hc hcounts
      exact .brace htake hnone h
    | some counts =>
      obtain ⟨least, most⟩ := counts
      cases items with
      | nil => cases hitems
      | cons last items =>
        dsimp only [repeatLast] at hitems
        split at hitems
        · cases hitems
        next hkind =>
          obtain ⟨mode, _, hmode, hpure⟩ := run_bind_eq_ok.mp hitems
          cases hpure
          exact .loop htake hc hcounts (by simpa using hkind) hmode h
  next hloop =>
  -- every other character stands for one item at most, but for the opening of a group
  have hsign : c = '#' → (scope.getD r.flags).verbose = false := by
    rintro rfl
    simpa using hremark
  simp only [Bool.not_eq_true] at hblank
  simp only [Bool.or_eq_true, beq_iff_eq, not_or] at hclass hloop
  split at hitems
  next hdot =>
    obtain rfl : c = '.' := by simpa using hdot
    exact hsingle (some _) (by decide) hsign (by simp [singleItem, hblank]) hitems
  next hdot =>
  split at hitems
  next hcaret =>
    obtain rfl : c = '^' := by simpa using hcaret
    exact hsingle (some _) (by decide) hsign (by simp [singleItem, hblank]) hitems
  next hcaret =>
  split at hitems
  next hdollar =>
    obtain rfl : c = '$' := by simpa using hdollar
    exact hsingle (some _) (by decide) hsign (by simp [singleItem, hblank]) hitems
  next hdollar =>
  split at hitems
  next hgroup =>
    obtain rfl : c = '(' := by simpa using hgroup
    obtain ⟨item, _, hitem, hpure⟩ := run_bind_eq_ok.mp hitems
    cases hpure
    exact .group htake (hinner _ _ hitem) h
  next hgroup =>
    simp only [beq_iff_eq] at hdot hcaret hdollar hgroup
    refine hsingle (some (.code (scope.getD r.flags) c.toNat)) ?_ hsign ?_ hitems
    · simp only [List.mem_cons, List.not_mem_nil, or_false, not_or]
      exact ⟨hbar, hend, hclass, hloop.1.1.1, hloop.1.1.2, hloop.1.2, hloop.2, hgroup⟩
    · simp [singleItem, hblank, hdot, hcaret, hdollar]

section Sound

variable {fuel : Nat} {flags : Flags} {r r₁ : Reading}

/-- With so much fuel every run is an instance of the relation. -/
def Sound (fuel : Nat) : Prop :=
  ∀ (task : Task) (r : Reading) (x : task.Out) (r₁ : Reading),
    (task.run fuel).run r = .ok (x, r₁) → Reads task r x r₁

theorem reads_alternatives (hsound : Sound fuel) {scope : Option Flags} {first : Bool}
    {parts : List Expr} (h : (alternatives scope (fuel + 1) first).run r = .ok (parts, r₁)) :
    Reads (.alternatives scope first) r parts r₁ := by
  rw [alternatives] at h
  obtain ⟨found, _, hfound, hjoin⟩ := run_bind_eq_ok.mp h
  cases hjoin
  exact .alternatives (hsound (.branches scope first) _ _ _ hfound)

theorem reads_branches (hsound : Sound fuel) {scope : Option Flags} {first : Bool}
    {found : List (List Expr)} (h : (branches scope (fuel + 1) first).run r = .ok (found, r₁)) :
    Reads (.branches scope first) r found r₁ := by
  rw [branches] at h
  obtain ⟨parts, r₂, hparts, hrest⟩ := run_bind_eq_ok.mp h
  have hreads := hsound (.sequence scope first []) _ _ _ hparts
  obtain ⟨bar, r₃, hbar, hothers⟩ := run_bind_eq_ok.mp hrest
  obtain ⟨rfl, htake⟩ | ⟨rfl, hne, rfl⟩ := run_accept_eq_ok.mp hbar
  · simp only [↓reduceIte] at hothers
    obtain ⟨others, _, hothers, hpure⟩ := run_bind_eq_ok.mp hothers
    cases hpure
    exact .branch hreads htake (hsound (.branches scope false) _ _ _ hothers)
  · cases hothers
    exact .lastBranch hreads hne

theorem reads_enclosed (hsound : Sound fuel) {parts : List Expr}
    (h : (enclosed flags (fuel + 1)).run r = .ok (parts, r₁)) :
    Reads (.enclosed flags) r parts r₁ := by
  rw [enclosed] at h
  obtain ⟨found, r₂, hfound, hend⟩ := run_bind_eq_ok.mp h
  obtain ⟨_, _, hexpect, hpure⟩ := run_bind_eq_ok.mp hend
  cases hpure
  exact .enclosed (hsound (.alternatives (some flags) false) _ _ _ hfound)
    (run_expect_eq_ok.mp hexpect)

theorem reads_sequence (hsound : Sound fuel) {scope : Option Flags} {first : Bool}
    {items : List Item} {parts : List Expr}
    (h : (sequence scope (fuel + 1) first items).run r = .ok (parts, r₁)) :
    Reads (.sequence scope first items) r parts r₁ := by
  rw [sequence_succ] at h
  simp only [scopeFlags, run_bind, run_get, bind_ok, run_pure, run_peek] at h
  have hnext : (nextToken? r.rest).map (·.1) = next? r := rfl
  rw [hnext] at h
  split at h
  next heq =>
    cases h
    exact .done (.inl heq)
  next heq =>
    cases h
    exact .done (.inr (.inl heq))
  next heq =>
    cases h
    exact .done (.inr (.inr heq))
  next c heq =>
    obtain ⟨token?, r₂, htoken, hrest⟩ := run_bind_eq_ok.mp h
    obtain ⟨-, hnone, -⟩ | ⟨t, -, htake⟩ := run_token_eq_ok.mp htoken
    · simp [hnone] at heq
    obtain rfl : t = .escaped c := Option.some.inj (htake.next?.symm.trans heq)
    obtain ⟨item, r₃, hitem, hrest⟩ := run_bind_eq_ok.mp hrest
    exact .escape htake hitem (hsound (.sequence scope first (item :: items)) _ _ _ hrest)
  next c hbar hend heq =>
    obtain ⟨token?, r₂, htoken, hrest⟩ := run_bind_eq_ok.mp h
    obtain ⟨-, hnone, -⟩ | ⟨t, -, htake⟩ := run_token_eq_ok.mp htoken
    · simp [hnone] at heq
    obtain rfl : t = .plain c := Option.some.inj (htake.next?.symm.trans heq)
    obtain ⟨items', r₃, hitems, hrest⟩ := run_bind_eq_ok.mp hrest
    exact reads_of_plainItems htake hbar hend
      (fun item r' hinner => hsound (.parenthesis _ _) _ _ _ hinner) hitems
      (hsound (.sequence scope first items') _ _ _ hrest)

theorem exists_of_captured (hsound : ∀ k < fuel, Sound k) {name : Option String} {e : Expr}
    (h : (captured flags fuel name).run r = .ok (e, r₁)) :
    ∃ number r₂ parts r₃, (openGroup name).run r = .ok (number, r₂) ∧
      Reads (.enclosed flags) r₂ parts r₃ ∧
      (closeGroup number (.sequence parts)).run r₃ = .ok ((), r₁) ∧
      e = .group number (.sequence parts) := by
  cases fuel with
  | zero => cases h
  | succ fuel =>
    rw [captured] at h
    obtain ⟨number, r₂, hopen, hrest⟩ := run_bind_eq_ok.mp h
    obtain ⟨parts, r₃, hparts, hrest⟩ := run_bind_eq_ok.mp hrest
    obtain ⟨_, _, hclose, hpure⟩ := run_bind_eq_ok.mp hrest
    cases hpure
    exact ⟨number, r₂, parts, r₃, hopen,
      hsound fuel (Nat.lt_succ_self _) (.enclosed flags) _ _ _ hparts, hclose, rfl⟩

theorem exists_of_bind_eq_ok {α β : Type} {x : Except Refusal α} {f : α → Except Refusal β} {b : β}
    (h : x.bind f = .ok b) : ∃ a, x = .ok a ∧ f a = .ok b := by
  cases x with
  | error e => cases h
  | ok a => exact ⟨a, rfl, h⟩

theorem run_groups : groups.run r = .ok (r.widths.size + 1, r) :=
  rfl

theorem run_groupWidths : groupWidths.run r = .ok (widthsOf r, r) :=
  rfl

theorem run_lookBehind (negated : Bool) :
    (lookBehind flags (fuel + 1) negated).run r =
      ((alternatives (some flags) fuel false).run (enterBehind r)).bind fun out =>
        ((expect ')').run (leaveBehind r out.2)).bind fun closed =>
          let body := Expr.sequence out.1
          let width := body.width (widthsOf closed.2)
          .ok (.behind negated width.least body, markUnfixed width closed.2) := by
  have hfinish : ∀ (body : Expr) (width : Width) (r₁ : Reading),
      (if (decide (width.most ≠ some width.least) || decide (repetitionLimit < width.least)) = true
        then do
          modify fun r => { r with unfixed := true }
          pure (Expr.behind negated width.least body)
        else pure (Expr.behind negated width.least body) : Reader Expr).run r₁ =
      .ok (.behind negated width.least body, markUnfixed width r₁) := by
    intro body width r₁
    unfold markUnfixed
    simp only [Bool.or_eq_true, decide_eq_true_eq]
    split <;> rfl
  unfold enterBehind leaveBehind
  rw [lookBehind]
  by_cases houter : r.behind.isNone = true
  · simp only [run_bind, run_get, bind_ok, houter, ↓reduceIte, run_groups, run_modify,
      run_groupWidths, hfinish]
  · simp only [run_bind, run_get, bind_ok, houter, Bool.false_eq_true, ↓reduceIte, run_groupWidths,
      hfinish]

theorem exists_of_lookBehind (hsound : ∀ k < fuel, Sound k) {negated : Bool} {e : Expr}
    (h : (lookBehind flags fuel negated).run r = .ok (e, r₁)) :
    ∃ parts r₂ r₃, Reads (.alternatives (some flags) false) (enterBehind r) parts r₂ ∧
      Takes (.plain ')') (leaveBehind r r₂) r₃ ∧
      e = .behind negated ((Expr.sequence parts).width (widthsOf r₃)).least (.sequence parts) ∧
      r₁ = markUnfixed ((Expr.sequence parts).width (widthsOf r₃)) r₃ := by
  cases fuel with
  | zero => cases h
  | succ fuel =>
    rw [run_lookBehind] at h
    obtain ⟨⟨parts, r₂⟩, hparts, h⟩ := exists_of_bind_eq_ok h
    obtain ⟨⟨_, r₃⟩, hexpect, h⟩ := exists_of_bind_eq_ok h
    cases h
    exact ⟨parts, r₂, r₃, hsound fuel (Nat.lt_succ_self _) (.alternatives _ _) _ _ _ hparts,
      run_expect_eq_ok.mp hexpect, rfl, rfl⟩

theorem reads_of_condition (hsound : ∀ k < fuel, Sound k) {flagsAllowed : Bool} {e : Expr}
    {r₂ r₃ : Reading} (hsign : Takes (.plain '?') r r₂) (hmark : Takes (.plain '(') r₂ r₃)
    (h : (condition flags fuel).run r₃ = .ok (e, r₁)) :
    Reads (.parenthesis flags flagsAllowed) r (some (.ofExpr e)) r₁ := by
  cases fuel with
  | zero => cases h
  | succ fuel =>
    have hbranch : ∀ {r parts r₁}, (sequence (some flags) fuel false []).run r = .ok (parts, r₁) →
        Reads (.sequence (some flags) false []) r parts r₁ := fun h =>
      hsound fuel (Nat.lt_succ_self _) (.sequence _ _ _) _ _ _ h
    rw [condition] at h
    obtain ⟨number, r₄, hgroup, hrest⟩ := run_bind_eq_ok.mp h
    obtain ⟨_, r₅, hbehind, hrest⟩ := run_bind_eq_ok.mp hrest
    obtain ⟨yes, r₆, hyes, hrest⟩ := run_bind_eq_ok.mp hrest
    rw [run_bind_eq_ok] at hrest
    obtain ⟨bar, r₇, haccept, hrest⟩ := hrest
    obtain ⟨rfl, hbar⟩ | ⟨rfl, -, rfl⟩ := run_accept_eq_ok.mp haccept
    · simp only [↓reduceIte] at hrest
      obtain ⟨no, r₈, hno, hrest⟩ := run_bind_eq_ok.mp hrest
      obtain ⟨_, _, hpeek, hrest⟩ := run_bind_eq_ok.mp hrest
      cases hpeek
      split at hrest
      · cases hrest
      rw [pure_bind] at hrest
      obtain ⟨_, _, hexpect, hpure⟩ := run_bind_eq_ok.mp hrest
      cases hpure
      exact .conditionElse hsign hmark hgroup hbehind (hbranch hyes) hbar (hbranch hno)
        (run_expect_eq_ok.mp hexpect)
    · simp only [Bool.false_eq_true, ↓reduceIte, pure_bind] at hrest
      obtain ⟨_, _, hexpect, hpure⟩ := run_bind_eq_ok.mp hrest
      cases hpure
      exact .condition hsign hmark hgroup hbehind (hbranch hyes) (run_expect_eq_ok.mp hexpect)

theorem reads_parenthesis (hsound : ∀ k ≤ fuel, Sound k) {flagsAllowed : Bool} {item : Option Item}
    (h : (parenthesis flags (fuel + 1) flagsAllowed).run r = .ok (item, r₁)) :
    Reads (.parenthesis flags flagsAllowed) r item r₁ := by
  have hlt : ∀ k < fuel, Sound k := fun k hk => hsound k (Nat.le_of_lt hk)
  have henclosed : ∀ {flags r parts r₁}, (enclosed flags fuel).run r = .ok (parts, r₁) →
      Reads (.enclosed flags) r parts r₁ := fun h =>
    hsound fuel (Nat.le_refl _) (.enclosed _) _ _ _ h
  rw [parenthesis] at h
  obtain ⟨sign, r₂, haccept, hrest⟩ := run_bind_eq_ok.mp h
  obtain ⟨rfl, hsign⟩ | ⟨rfl, hne, rfl⟩ := run_accept_eq_ok.mp haccept
  · simp only [Bool.not_true, Bool.false_eq_true, ↓reduceIte] at hrest
    obtain ⟨token?, r₃, htoken, hrest⟩ := run_bind_eq_ok.mp hrest
    obtain ⟨rfl, -, -⟩ | ⟨t, rfl, htake⟩ := run_token_eq_ok.mp htoken
    · cases hrest
    split at hrest
    next heq =>
      -- a letter that gives a name or refers to one
      obtain rfl : t = .plain 'P' := by simpa using heq
      rw [run_bind_eq_ok] at hrest
      obtain ⟨angle, r₄, haccept, hrest⟩ := hrest
      obtain ⟨rfl, hangle⟩ | ⟨rfl, -, rfl⟩ := run_accept_eq_ok.mp haccept
      · simp only [↓reduceIte] at hrest
        obtain ⟨name, r₅, hname, hrest⟩ := run_bind_eq_ok.mp hrest
        obtain ⟨e, _, hcaptured, hpure⟩ := run_bind_eq_ok.mp hrest
        cases hpure
        obtain ⟨number, r₆, parts, r₇, hopen, hparts, hclose, rfl⟩ :=
          exists_of_captured hlt hcaptured
        exact .named hsign htake hangle hname hopen hparts hclose
      simp only [Bool.false_eq_true, ↓reduceIte] at hrest
      rw [run_bind_eq_ok] at hrest
      obtain ⟨equals, r₅, haccept, hrest⟩ := hrest
      obtain ⟨rfl, hequals⟩ | ⟨rfl, -, -⟩ := run_accept_eq_ok.mp haccept
      · simp only [↓reduceIte] at hrest
        obtain ⟨name, r₆, hname, hrest⟩ := run_bind_eq_ok.mp hrest
        obtain ⟨_, _, hget, hrest⟩ := run_bind_eq_ok.mp hrest
        cases hget
        split at hrest
        · cases hrest
        next number hnumber =>
          obtain ⟨e, _, href, hpure⟩ := run_bind_eq_ok.mp hrest
          cases hpure
          exact .reference hsign htake hequals hname hnumber href
      · cases hrest
    next heq =>
      obtain rfl : t = .plain ':' := by simpa using heq
      obtain ⟨parts, _, hparts, hpure⟩ := run_bind_eq_ok.mp hrest
      cases hpure
      exact .plain hsign htake (henclosed hparts)
    next heq =>
      obtain rfl : t = .plain '#' := by simpa using heq
      obtain ⟨_, _, hget, hrest⟩ := run_bind_eq_ok.mp hrest
      cases hget
      obtain ⟨_, _, hskip, hpure⟩ := run_bind_eq_ok.mp hrest
      cases hpure
      exact .comment hsign htake hskip
    next heq =>
      obtain rfl : t = assertionSign false := by simpa [assertionSign] using heq
      obtain ⟨parts, _, hparts, hpure⟩ := run_bind_eq_ok.mp hrest
      cases hpure
      exact .ahead hsign htake (henclosed hparts)
    next heq =>
      obtain rfl : t = assertionSign true := by simpa [assertionSign] using heq
      obtain ⟨parts, _, hparts, hpure⟩ := run_bind_eq_ok.mp hrest
      cases hpure
      exact .ahead hsign htake (henclosed hparts)
    next heq =>
      obtain rfl : t = .plain '<' := by simpa using heq
      -- both signs of an assertion are followed by the same run
      have hbehind : ∀ {negated r₄}, Takes (assertionSign negated) r₃ r₄ →
          (do return some (Item.ofExpr (← lookBehind flags fuel negated)) : Reader _).run r₄ =
            .ok (item, r₁) →
          Reads (.parenthesis flags flagsAllowed) r item r₁ := by
        intro negated r₄ hmark hrest
        obtain ⟨e, _, hbehind, hpure⟩ := run_bind_eq_ok.mp hrest
        cases hpure
        obtain ⟨parts, r₅, r₆, hparts, hend, rfl, rfl⟩ := exists_of_lookBehind hlt hbehind
        exact .behind hsign htake hmark hparts hend
      obtain ⟨token?, r₄, htoken, hrest⟩ := run_bind_eq_ok.mp hrest
      obtain ⟨rfl, -, -⟩ | ⟨t, rfl, hmark⟩ := run_token_eq_ok.mp htoken
      · cases hrest
      split at hrest
      next heq =>
        obtain rfl : t = assertionSign false := by simpa [assertionSign] using heq
        exact hbehind hmark hrest
      next heq =>
        obtain rfl : t = assertionSign true := by simpa [assertionSign] using heq
        exact hbehind hmark hrest
      next => cases hrest
    next heq =>
      obtain rfl : t = .plain '(' := by simpa using heq
      obtain ⟨e, _, hcondition, hpure⟩ := run_bind_eq_ok.mp hrest
      cases hpure
      exact reads_of_condition hlt hsign htake hcondition
    next heq =>
      obtain rfl : t = .plain '>' := by simpa using heq
      obtain ⟨parts, _, hparts, hpure⟩ := run_bind_eq_ok.mp hrest
      cases hpure
      exact .atomic hsign htake (henclosed hparts)
    next c _ _ _ _ _ _ _ _ heq =>
      -- flags, for all that follows or for what the parentheses hold
      obtain rfl : t = .plain c := by simpa using heq
      split at hrest
      · cases hrest
      next hc =>
        have hc : c = '-' ∨ (Flags.ofLetter? c).isSome := by
          cases hletter : Flags.ofLetter? c <;> simp_all
        obtain ⟨found, r₄, hflags, hrest⟩ := run_bind_eq_ok.mp hrest
        cases found with
        | none =>
          dsimp only at hrest
          split at hrest
          next hallowed =>
            cases hrest
            obtain rfl : flagsAllowed = true := hallowed
            exact .setFlags hsign htake hc hflags
          next => cases hrest
        | some changes =>
          obtain ⟨added, dropped⟩ := changes
          obtain ⟨parts, _, hparts, hpure⟩ := run_bind_eq_ok.mp hrest
          cases hpure
          exact .flagged hsign htake hc hflags (henclosed hparts)
    next => cases hrest
  · simp only [Bool.not_false, ↓reduceIte] at hrest
    obtain ⟨e, _, hcaptured, hpure⟩ := run_bind_eq_ok.mp hrest
    cases hpure
    obtain ⟨number, r₃, parts, r₄, hopen, hparts, hclose, rfl⟩ := exists_of_captured hlt hcaptured
    exact .captured hne hopen hparts hclose

/-- Whatever the reader has read stands in the relation. -/
theorem reads_of_run (fuel : Nat) : Sound fuel := by
  induction fuel using Nat.strongRecOn with
  | _ fuel ih =>
    intro task r x r₁ h
    cases fuel with
    | zero => cases task <;> cases h
    | succ fuel =>
      have hsound := ih fuel (Nat.lt_succ_self _)
      cases task with
      | alternatives scope first => exact reads_alternatives hsound h
      | branches scope first => exact reads_branches hsound h
      | sequence scope first items => exact reads_sequence hsound h
      | parenthesis flags flagsAllowed =>
        exact reads_parenthesis (fun k hk => ih k (Nat.lt_succ_of_le hk)) h
      | enclosed flags => exact reads_enclosed hsound h

end Sound

end StepTrace.Regex.Reader
