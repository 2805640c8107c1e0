import StepTrace.Proofs.Regex.InStep

/-!
# What stands in the relation is read

`Reads` leaves fuel out of account.  Fuel for eight calls a character is enough to read whatever
stands in the relation (`Reads.run`), so that a pattern is read if and only if it stands there
(`read_eq_ok_iff`).
-/

namespace StepTrace.Regex.Reader

/-! ## Fuel -/

/-- The calls that a task needs besides those for its text. -/
def Task.reserve : Task → Nat
  | alternatives _ _ => 4
  | branches _ _ => 3
  | sequence _ _ _ => 1
  | parenthesis _ _ => 8
  | enclosed _ => 5

/-- Only at the outermost level flags for the whole pattern may stand first. -/
def Task.Proper : Task → Prop
  | alternatives scope first | branches scope first | sequence scope first _ =>
    scope.isSome → first = false
  | parenthesis _ _ | enclosed _ => True

variable {scope : Option Flags} {flags : Flags} {first flagsAllowed : Bool} {fuel : Nat}
  {items items' : List Item} {parts : List Expr} {r r₁ r₂ r₃ r₄ : Reading} {c : Char}

theorem Reads.exists_spans {task : Task} {x : task.Out} (h : Reads task r x r₁)
    (hproper : task.Proper) (hr : r.rest ≠ ['\\']) : ∃ ts, Spans ts r.rest r₁.rest := by
  have hstep := h.inStep hr
  cases task with
  | alternatives scope first | branches scope first | sequence scope first items =>
    obtain ⟨ts, hspans, -⟩ := hstep hproper
    exact ⟨ts, hspans⟩
  | parenthesis flags flagsAllowed =>
    obtain ⟨ts, added, hspans, -⟩ := hstep
    exact ⟨ts, hspans⟩
  | enclosed flags =>
    obtain ⟨ts, hspans, -⟩ := hstep
    exact ⟨ts, hspans⟩

theorem Takes.length_lt {t : Token} (hr : r.rest ≠ ['\\']) (h : Takes t r r₁) :
    r₁.rest.length < r.rest.length := by
  have := (h.spans hr).length_le
  rw [List.length_singleton] at this
  omega

/-! ## Sequences -/

theorem run_sequence_done (hnext : next? r = none ∨ next? r = some (.plain '|') ∨
    next? r = some (.plain ')')) :
    (sequence scope (fuel + 1) first items).run r =
      .ok (items.reverse.flatMap (·.parts), r) := by
  have hpeek : (nextToken? r.rest).map (·.1) = next? r := rfl
  rw [sequence_succ]
  simp only [scopeFlags, run_bind, run_get, bind_ok, run_pure, run_peek, hpeek]
  obtain h | h | h := hnext <;> rw [h] <;> rfl

theorem run_sequence_escape {item : Item} (htake : Takes (.escaped c) r r₁)
    (hitem : (escape (scope.getD r.flags) c).run r₁ = .ok (item, r₂))
    (h : (sequence scope fuel first (item :: items)).run r₂ = .ok (parts, r₃)) :
    (sequence scope (fuel + 1) first items).run r = .ok (parts, r₃) := by
  have hpeek : (nextToken? r.rest).map (·.1) = next? r := rfl
  rw [sequence_succ]
  simp only [scopeFlags, run_bind, run_get, bind_ok, run_pure, run_peek, hpeek, htake.next?,
    htake.run_token, hitem, h]

theorem run_sequence_plain (htake : Takes (.plain c) r r₁) (hbar : c ≠ '|') (hend : c ≠ ')')
    (hitems : (plainItems (scope.getD r.flags) c items
      (parenthesis (scope.getD r.flags) fuel (first && items.isEmpty))).run r₁ = .ok (items', r₂))
    (h : (sequence scope fuel first items').run r₂ = .ok (parts, r₃)) :
    (sequence scope (fuel + 1) first items).run r = .ok (parts, r₃) := by
  have hpeek : (nextToken? r.rest).map (·.1) = next? r := rfl
  rw [sequence_succ]
  simp only [scopeFlags, run_bind, run_get, bind_ok, run_pure, run_peek, hpeek, htake.next?,
    htake.run_token, hitems, h]

/-! ## Items -/

section Items

variable {inner : Reader (Option Item)}

theorem run_plainItems_remark (hverbose : flags.verbose = true)
    (hskip : (skipPast '\n' true (r.rest.length + 1)).run r = .ok ((), r₁)) :
    (plainItems flags '#' items inner).run r = .ok (items, r₁) := by
  have hblank : isVerboseBlank '#' = false := by decide
  simp only [plainItems, hblank, Bool.and_false, Bool.false_eq_true, ↓reduceIte, hverbose, beq_self_eq_true,
    Bool.and_self, run_bind, run_get, bind_ok, hskip, run_pure]

theorem run_plainItems_charClass {item : Item} (hitem : (charClass flags).run r = .ok (item, r₁)) :
    (plainItems flags '[' items inner).run r = .ok (item :: items, r₁) := by
  have hblank : isVerboseBlank '[' = false := by decide
  have hsign : ('[' == '#') = false := by decide
  simp only [plainItems, hblank, hsign, Bool.and_false, Bool.false_eq_true, ↓reduceIte,
    beq_self_eq_true, run_bind, hitem, bind_ok, run_pure]

theorem run_plainItems_counts {found : Option (Nat × Option Nat)} (hc : c ∈ ['?', '*', '+', '{'])
    (hcounts : (counts? c).run r = .ok (found, r₁)) :
    (plainItems flags c items inner).run r =
      (match found with
      | none => return .code flags c.toNat :: items
      | some (least, most) => repeatLast least most items : Reader (List Item)).run r₁ := by
  have hsigns : ∀ d ∈ ['?', '*', '+', '{'], isVerboseBlank d = false ∧ (d == '#') = false ∧
      (d == '[') = false ∧ (d == '?' || d == '*' || d == '+' || d == '{') = true :=
      forall_mem_of_all (by decide)
  obtain ⟨hblank, hsign, hbracket, hloop⟩ := hsigns c hc
  simp only [plainItems, hblank, hsign, hbracket, hloop, Bool.and_false, Bool.false_eq_true,
    ↓reduceIte, run_bind, hcounts, bind_ok]
  cases found <;> rfl

theorem run_repeatLast {least : Nat} {most : Option Nat} {last : Item} {mode : LoopMode}
    (hlast : last.kind = .repeatable) (hmode : loopMode.run r = .ok (mode, r₁)) :
    (repeatLast least most (last :: items)).run r =
      .ok (loopItem mode least most last :: items, r₁) := by
  simp only [repeatLast, hlast, ne_eq, not_true_eq_false, ↓reduceIte, run_bind, hmode, bind_ok,
    run_pure, loopItem]

theorem run_plainItems_single (hc : c ∉ sequenceSigns) (hsign : c = '#' → flags.verbose = false) :
    (plainItems flags c items inner).run r =
      .ok ((singleItem flags c).toList ++ items, r) := by
  simp only [List.mem_cons, List.not_mem_nil, or_false, not_or] at hc
  obtain ⟨-, -, hbracket, hquestion, hstar, hplus, hbrace, hparen⟩ := hc
  have hremark : (flags.verbose && c == '#') = false := by
    by_cases heq : c = '#'
    · simp [hsign heq]
    · simp [heq]
  unfold plainItems singleItem
  by_cases hblank : (flags.verbose && isVerboseBlank c) = true
  · simp only [hblank, ↓reduceIte, run_pure, Option.toList_none, List.nil_append]
  simp only [hblank, hremark, Bool.false_eq_true, ↓reduceIte, beq_iff_eq, hbracket, Bool.or_eq_true,
    hquestion, hstar, hplus, hbrace, hparen, or_self]
  split
  · rfl
  split
  · rfl
  split <;> rfl

theorem run_plainItems_group {item : Option Item} (h : inner.run r = .ok (item, r₁)) :
    (plainItems flags '(' items inner).run r = .ok (item.toList ++ items, r₁) := by
  have hblank : isVerboseBlank '(' = false := by decide
  have hsigns : ∀ d ∈ ['#', '[', '?', '*', '+', '{', '.', '^', '$'], ('(' == d) = false :=
    forall_mem_of_all (by decide)
  simp only [plainItems, hblank, hsigns, Bool.and_false, Bool.false_eq_true, ↓reduceIte,
    Bool.or_self, beq_self_eq_true, run_bind, h, bind_ok, run_pure, List.mem_cons, true_or, or_true]

end Items

/-! ## Groups -/

theorem Takes.run_accept (h : Takes (.plain c) r r₁) : (accept c).run r = .ok (true, r₁) :=
  run_accept_eq_ok.mpr (.inl ⟨rfl, h⟩)

theorem run_accept_of_ne (h : next? r ≠ some (.plain c)) : (accept c).run r = .ok (false, r) :=
  run_accept_eq_ok.mpr (.inr ⟨rfl, h, rfl⟩)

theorem Takes.run_expect (h : Takes (.plain c) r r₁) : (expect c).run r = .ok ((), r₁) :=
  run_expect_eq_ok.mpr h

theorem run_alternatives {found : List (List Expr)}
    (h : (branches scope fuel first).run r = .ok (found, r₁)) :
    (alternatives scope (fuel + 1) first).run r =
      .ok (Expr.joined (scope.getD r₁.flags).folding found, r₁) := by
  simp only [alternatives, run_bind, h, bind_ok, scopeFlags, run_get, run_pure]

theorem run_lastBranch (h : (sequence scope fuel first []).run r = .ok (parts, r₁))
    (hnext : next? r₁ ≠ some (.plain '|')) :
    (branches scope (fuel + 1) first).run r = .ok ([parts], r₁) := by
  simp only [branches, run_bind, h, bind_ok, run_accept_of_ne hnext, Bool.false_eq_true, ↓reduceIte,
    run_pure]

theorem run_branch {others : List (List Expr)}
    (h : (sequence scope fuel first []).run r = .ok (parts, r₁)) (hbar : Takes (.plain '|') r₁ r₂)
    (hothers : (branches scope fuel false).run r₂ = .ok (others, r₃)) :
    (branches scope (fuel + 1) first).run r = .ok (parts :: others, r₃) := by
  simp only [branches, run_bind, h, bind_ok, hbar.run_accept, ↓reduceIte, hothers, run_pure]

theorem run_enclosed (h : (alternatives (some flags) fuel false).run r = .ok (parts, r₁))
    (hend : Takes (.plain ')') r₁ r₂) : (enclosed flags (fuel + 1)).run r = .ok (parts, r₂) := by
  simp only [enclosed, run_bind, h, bind_ok, hend.run_expect, run_pure]

theorem run_captured {name : Option String} {number : Nat}
    (hopen : (openGroup name).run r = .ok (number, r₁))
    (h : (enclosed flags fuel).run r₁ = .ok (parts, r₂))
    (hclose : (closeGroup number (.sequence parts)).run r₂ = .ok ((), r₃)) :
    (captured flags (fuel + 1) name).run r = .ok (.group number (.sequence parts), r₃) := by
  simp only [captured, run_bind, hopen, bind_ok, h, hclose, run_pure]

theorem run_parenthesis_captured {e : Expr} (hnext : next? r ≠ some (.plain '?'))
    (h : (captured flags fuel none).run r = .ok (e, r₁)) :
    (parenthesis flags (fuel + 1) flagsAllowed).run r = .ok (some (.ofExpr e), r₁) := by
  simp only [parenthesis, run_bind, run_accept_of_ne hnext, bind_ok, Bool.not_false, ↓reduceIte, h,
    run_pure]

theorem run_parenthesis_named {name : String} {e : Expr} {r₅ : Reading}
    (hsign : Takes (.plain '?') r r₁) (hletter : Takes (.plain 'P') r₁ r₂)
    (hangle : Takes (.plain '<') r₂ r₃) (hname : (groupName '>').run r₃ = .ok (name, r₄))
    (h : (captured flags fuel (some name)).run r₄ = .ok (e, r₅)) :
    (parenthesis flags (fuel + 1) flagsAllowed).run r = .ok (some (.ofExpr e), r₅) := by
  simp only [parenthesis, run_bind, hsign.run_accept, bind_ok, Bool.not_true, Bool.false_eq_true,
    ↓reduceIte, hletter.run_token, hangle.run_accept, hname, h, run_pure]

theorem run_parenthesis_reference {name : String} {number : Nat} {e : Expr} {r₅ : Reading}
    (hsign : Takes (.plain '?') r r₁) (hletter : Takes (.plain 'P') r₁ r₂)
    (hequals : Takes (.plain '=') r₂ r₃) (hname : (groupName ')').run r₃ = .ok (name, r₄))
    (hnumber : r₄.names.lookup name = some number)
    (href : (backReference flags number).run r₄ = .ok (e, r₅)) :
    (parenthesis flags (fuel + 1) flagsAllowed).run r = .ok (some (.ofExpr e), r₅) := by
  have hangle : next? r₂ ≠ some (.plain '<') := by
    rw [hequals.next?]
    decide
  simp only [parenthesis, run_bind, hsign.run_accept, bind_ok, Bool.not_true, Bool.false_eq_true,
    ↓reduceIte, hletter.run_token, run_accept_of_ne hangle, hequals.run_accept, hname, run_get,
    hnumber, href, run_pure]

/-- A mark behind the question mark that has no further text before the inside of the group. -/
theorem run_parenthesis_mark {wrap : List Expr → Item} (hsign : Takes (.plain '?') r r₁)
    (hmark : Takes (.plain c) r₁ r₂)
    (hc : (c, wrap) ∈ [(':', fun parts => { parts }),
      ('=', fun parts => .ofExpr (.ahead false (.sequence parts))),
      ('!', fun parts => .ofExpr (.ahead true (.sequence parts))),
      ('>', fun parts => .ofExpr (.atomic (.sequence parts)))])
    (h : (enclosed flags fuel).run r₂ = .ok (parts, r₃)) :
    (parenthesis flags (fuel + 1) flagsAllowed).run r = .ok (some (wrap parts), r₃) := by
  simp only [List.mem_cons, List.not_mem_nil, or_false, Prod.mk.injEq] at hc
  obtain ⟨rfl, rfl⟩ | ⟨rfl, rfl⟩ | ⟨rfl, rfl⟩ | ⟨rfl, rfl⟩ := hc <;>
    simp only [parenthesis, run_bind, hsign.run_accept, bind_ok, Bool.not_true, Bool.false_eq_true,
      ↓reduceIte, hmark.run_token, h, run_pure]

theorem run_parenthesis_comment (hsign : Takes (.plain '?') r r₁) (hmark : Takes (.plain '#') r₁ r₂)
    (hskip : (skipPast ')' false (r₂.rest.length + 1)).run r₂ = .ok ((), r₃)) :
    (parenthesis flags (fuel + 1) flagsAllowed).run r = .ok (none, r₃) := by
  simp only [parenthesis, run_bind, hsign.run_accept, bind_ok, Bool.not_true, Bool.false_eq_true,
    ↓reduceIte, hmark.run_token, run_get, hskip, run_pure]

theorem run_parenthesis_behind {negated : Bool} {r₅ : Reading} (hsign : Takes (.plain '?') r r₁)
    (hangle : Takes (.plain '<') r₁ r₂) (hmark : Takes (assertionSign negated) r₂ r₃)
    (h : (alternatives (some flags) fuel false).run (enterBehind r₃) = .ok (parts, r₄))
    (hend : Takes (.plain ')') (leaveBehind r₃ r₄) r₅) :
    (parenthesis flags (fuel + 2) flagsAllowed).run r =
      .ok (some (.ofExpr (.behind negated ((Expr.sequence parts).width (widthsOf r₅)).least
        (.sequence parts))), markUnfixed ((Expr.sequence parts).width (widthsOf r₅)) r₅) := by
  have hbehind : (lookBehind flags (fuel + 1) negated).run r₃ =
      .ok (.behind negated ((Expr.sequence parts).width (widthsOf r₅)).least (.sequence parts),
        markUnfixed ((Expr.sequence parts).width (widthsOf r₅)) r₅) := by
    simp only [run_lookBehind, h, bind_ok, hend.run_expect]
  cases negated <;>
    simp only [parenthesis, run_bind, hsign.run_accept, bind_ok, Bool.not_true, Bool.false_eq_true,
      ↓reduceIte, hangle.run_token, hmark.run_token, assertionSign, hbehind, run_pure]

theorem run_parenthesis_condition {number : Nat} {yes no : List Expr}
    {r₅ r₆ r₇ : Reading} (hsign : Takes (.plain '?') r r₁) (hmark : Takes (.plain '(') r₁ r₂)
    (hgroup : conditionGroup.run r₂ = .ok (number, r₃))
    (hbehind : (checkBehind number).run r₃ = .ok ((), r₄))
    (hyes : (sequence (some flags) fuel false []).run r₄ = .ok (yes, r₅))
    (hno : (next? r₅ ≠ some (.plain '|') ∧ r₆ = r₅ ∧ no = []) ∨
      ∃ r', Takes (.plain '|') r₅ r' ∧
        (sequence (some flags) fuel false []).run r' = .ok (no, r₆))
    (hend : Takes (.plain ')') r₆ r₇) :
    (parenthesis flags (fuel + 2) flagsAllowed).run r =
      .ok (some (.ofExpr (.ifGroup number (.sequence yes) (.sequence no))), r₇) := by
  have hcondition : (condition flags (fuel + 1)).run r₂ =
      .ok (.ifGroup number (.sequence yes) (.sequence no), r₇) := by
    have hpeek : (nextToken? r₆.rest).map (·.1) = next? r₆ := rfl
    have hbar : (next? r₆ = some (.plain '|')) = False := by
      rw [hend.next?]
      decide
    obtain ⟨hne, rfl, rfl⟩ | ⟨r', hbar', hno⟩ := hno
    · simp only [condition, run_bind, hgroup, bind_ok, hbehind, hyes, run_accept_of_ne hne,
        Bool.false_eq_true, ↓reduceIte, run_pure, hend.run_expect]
    · simp only [condition, run_bind, hgroup, bind_ok, hbehind, hyes, hbar'.run_accept, ↓reduceIte,
        hno, run_peek, hpeek, hbar, run_pure, hend.run_expect]
  simp only [parenthesis, run_bind, hsign.run_accept, bind_ok, Bool.not_true, Bool.false_eq_true,
    ↓reduceIte, hmark.run_token, hcondition, run_pure]

theorem run_parenthesis_flags (hsign : Takes (.plain '?') r r₁) (hletter : Takes (.plain c) r₁ r₂)
    (hc : c = '-' ∨ (Flags.ofLetter? c).isSome) :
    (parenthesis flags (fuel + 1) flagsAllowed).run r = (do
      match ← groupFlags c with
      | none => if flagsAllowed then return none else refuse
      | some (added, dropped) => do
        let body ← enclosed (flags.inGroup added dropped) fuel
        return some (.ofExpr (.flagged (.sequence body))) : Reader (Option Item)).run r₂ := by
  have hother : ∀ d ∈ ['P', ':', '#', '=', '!', '<', '(', '>'], c ≠ d := by
    rintro d hd rfl
    have hnot : ∀ d ∈ ['P', ':', '#', '=', '!', '<', '(', '>'],
        d ≠ '-' ∧ Flags.ofLetter? d = none := forall_mem_of_all (by decide)
    obtain ⟨hminus, hletter⟩ := hnot _ hd
    simp [hminus, hletter] at hc
  have hknown : ¬((c ≠ '-' && (Flags.ofLetter? c).isNone) = true) := by
    cases hletter : Flags.ofLetter? c <;> simp_all
  rw [parenthesis]
  simp only [run_bind, hsign.run_accept, bind_ok, Bool.not_true, Bool.false_eq_true, ↓reduceIte,
    hletter.run_token]
  have hne : ∀ {d : Char}, d ∈ ['P', ':', '#', '=', '!', '<', '(', '>'] →
      some (Token.plain c) ≠ some (.plain d) := by
    intro d hd heq
    exact hother d hd (by simpa using heq)
  split
  case h_9 heq =>
    cases heq
    rw [if_neg hknown]
    rfl
  case h_10 hother => exact (hother c rfl).elim
  all_goals
    rename_i heq
    exact absurd heq (hne (by simp))

/-! ## Runs -/

theorem rest_enterBehind (r : Reading) : (enterBehind r).rest = r.rest := by
  unfold enterBehind
  split <;> rfl

theorem Task.reserve_pos (task : Task) : 0 < task.reserve := by
  cases task <;> simp [Task.reserve]

theorem exists_succ_of_reserve {task : Task} {n : Nat} (h : 8 * n + task.reserve ≤ fuel) :
    ∃ k, fuel = k + 1 := by
  have := task.reserve_pos
  exact ⟨fuel - 1, by omega⟩

/-- Inside the parentheses of a group a second call is made before what they hold is read. -/
theorem exists_add_two_of_parenthesis {n : Nat}
    (h : 8 * n + (Task.parenthesis flags flagsAllowed).reserve ≤ fuel) : ∃ k, fuel = k + 2 := by
  simp only [Task.reserve] at h
  exact ⟨fuel - 2, by omega⟩

/-- Fuel is enough for what comes later in the text and needs less besides. -/
theorem fuel_of_spans {ts : List Token} {n m k : Nat} (hspans : Spans ts r.rest r₁.rest)
    (hfuel : 8 * r.rest.length + n ≤ fuel + k) (h : m + k ≤ n) :
    8 * r₁.rest.length + m ≤ fuel := by
  have := hspans.length_le
  omega

/-- Behind a token there is fuel for eight more calls. -/
theorem fuel_of_takes {t : Token} {ts : List Token} {n m k : Nat} (hr : r.rest ≠ ['\\'])
    (htake : Takes t r r₁) (hspans : Spans ts r₁.rest r₂.rest)
    (hfuel : 8 * r.rest.length + n ≤ fuel + k) (h : m + k ≤ n + 8) :
    8 * r₂.rest.length + m ≤ fuel := by
  have := htake.length_lt hr
  have := hspans.length_le
  omega

/-- A sequence goes on behind a token that it has taken and what has been read of it. -/
theorem fuel_of_item {t : Token} {ts : List Token} (hr : r.rest ≠ ['\\']) (htake : Takes t r r₁)
    (hspans : Spans ts r₁.rest r₂.rest)
    (hfuel : 8 * r.rest.length + (Task.sequence scope first items).reserve ≤ fuel + 1) :
    8 * r₂.rest.length + (Task.sequence scope first items').reserve ≤ fuel :=
  fuel_of_takes hr htake hspans hfuel (by simp [Task.reserve])

/-- Whatever stands in the relation is read with fuel for eight calls a character. -/
theorem Reads.run {task : Task} {x : task.Out} (h : Reads task r x r₁) (fuel : Nat) (hproper : task.Proper)
    (hr : r.rest ≠ ['\\']) (hfuel : 8 * r.rest.length + task.reserve ≤ fuel) :
    (task.run fuel).run r = .ok (x, r₁) := by
  -- each call takes one of the fuel, and each token that is taken leaves eight for what follows it
  induction h generalizing fuel with
  | alternatives h ih =>
    obtain ⟨fuel, rfl⟩ := exists_succ_of_reserve hfuel
    exact run_alternatives (ih fuel hproper hr (Nat.le_of_succ_le_succ hfuel))
  | lastBranch h hnext ih =>
    obtain ⟨fuel, rfl⟩ := exists_succ_of_reserve hfuel
    refine run_lastBranch (ih fuel hproper hr ?_) hnext
    exact fuel_of_spans (.nil hr) hfuel (by simp [Task.reserve])
  | branch h hbar hothers ih ihothers =>
    obtain ⟨fuel, rfl⟩ := exists_succ_of_reserve hfuel
    obtain ⟨ts, hspans⟩ := h.exists_spans hproper hr
    refine run_branch (ih fuel hproper hr ?_) hbar
      (ihothers fuel (fun _ => rfl) (hbar.spans hspans.left).left ?_)
    · exact fuel_of_spans (.nil hr) hfuel (by simp [Task.reserve])
    · have hafter := fuel_of_spans (k := 0) (m := 3) hspans hfuel (by simp [Task.reserve])
      exact fuel_of_takes hspans.left hbar (.nil (hbar.spans hspans.left).left) hafter (by simp [Task.reserve])
  | done hnext =>
    obtain ⟨fuel, rfl⟩ := exists_succ_of_reserve hfuel
    exact run_sequence_done hnext
  | escape htake hitem h ih =>
    obtain ⟨fuel, rfl⟩ := exists_succ_of_reserve hfuel
    obtain ⟨ts, hspans, -⟩ := textual_escape _ _ (htake.spans hr).left hitem
    exact run_sequence_escape htake hitem
      (ih fuel hproper hspans.left (fuel_of_item hr htake hspans hfuel))
  | remark htake hverbose hskip h ih =>
    obtain ⟨fuel, rfl⟩ := exists_succ_of_reserve hfuel
    obtain ⟨ts, hspans⟩ := exists_spans_skipPast (htake.spans hr).left hskip
    exact run_sequence_plain htake (by decide) (by decide) (run_plainItems_remark hverbose hskip)
      (ih fuel hproper hspans.left (fuel_of_item hr htake hspans hfuel))
  | charClass htake hitem h ih =>
    obtain ⟨fuel, rfl⟩ := exists_succ_of_reserve hfuel
    obtain ⟨ts, hspans, -⟩ := run_charClass (htake.spans hr).left hitem
    exact run_sequence_plain htake (by decide) (by decide) (run_plainItems_charClass hitem)
      (ih fuel hproper hspans.left (fuel_of_item hr htake hspans hfuel))
  | loop htake hc hcounts hlast hmode h ih =>
    obtain ⟨fuel, rfl⟩ := exists_succ_of_reserve hfuel
    obtain ⟨ts, hspans, -⟩ := textual_counts? _ (htake.spans hr).left hcounts
    obtain ⟨us, hspans', -⟩ := textual_loopMode hspans.left hmode
    have hsigns : ∀ d ∈ ['?', '*', '+', '{'], d ≠ '|' ∧ d ≠ ')' := forall_mem_of_all (by decide)
    refine run_sequence_plain htake (hsigns _ hc).1 (hsigns _ hc).2 ?_
      (ih fuel hproper hspans'.left (fuel_of_item hr htake (hspans.append hspans') hfuel))
    rw [run_plainItems_counts hc hcounts]
    exact run_repeatLast hlast hmode
  | brace htake hcounts h ih =>
    obtain ⟨fuel, rfl⟩ := exists_succ_of_reserve hfuel
    obtain ⟨ts, hspans, -⟩ := textual_bracedCounts? (htake.spans hr).left hcounts
    refine run_sequence_plain htake (by decide) (by decide) ?_
      (ih fuel hproper hspans.left (fuel_of_item hr htake hspans hfuel))
    have hcounts' : (counts? '{').run _ = .ok (none, _) := hcounts
    rw [run_plainItems_counts (by simp) hcounts']
    rfl
  | single htake hc hsign h ih =>
    obtain ⟨fuel, rfl⟩ := exists_succ_of_reserve hfuel
    have hspans := Spans.nil (htake.spans hr).left
    exact run_sequence_plain htake (fun heq => hc (by simp [heq])) (fun heq => hc (by simp [heq]))
      (run_plainItems_single hc hsign)
      (ih fuel hproper hspans.left (fuel_of_item hr htake hspans hfuel))
  | group htake hopen h ihopen ih =>
    obtain ⟨fuel, rfl⟩ := exists_succ_of_reserve hfuel
    have hleft := (htake.spans hr).left
    obtain ⟨ts, hspans⟩ := hopen.exists_spans trivial hleft
    have hinside := fuel_of_takes (m := 8) hr htake (.nil hleft) hfuel (by simp [Task.reserve])
    exact run_sequence_plain htake (by decide) (by decide)
      (run_plainItems_group (ihopen fuel trivial hleft hinside))
      (ih fuel hproper hspans.left (fuel_of_item hr htake hspans hfuel))
  | captured hnext hopen h hclose ih =>
    obtain ⟨fuel, rfl⟩ := exists_add_two_of_parenthesis hfuel
    refine run_parenthesis_captured hnext (run_captured hopen (ih fuel trivial ?_ ?_) hclose)
    all_goals
      rw [run_openGroup_none] at hopen
      cases hopen
    · exact hr
    · exact fuel_of_spans (.nil hr) hfuel (by simp [Task.reserve])
  | named hsign hletter hangle hname hopen h hclose ih =>
    obtain ⟨fuel, rfl⟩ := exists_add_two_of_parenthesis hfuel
    have hhead := ((hsign.spans hr).append (hletter.spans (hsign.spans hr).left))
    have hopening := hhead.append (hangle.spans hhead.left)
    obtain ⟨ts, hgiven, -⟩ := shaped_groupName '>' hopening.left hname
    refine run_parenthesis_named hsign hletter hangle hname
      (run_captured hopen (ih fuel trivial ?_ ?_) hclose)
    all_goals obtain ⟨-, -, rfl⟩ := run_openGroup_some.mp hopen
    · exact hgiven.left
    · exact fuel_of_spans (hopening.append hgiven) hfuel (by simp [Task.reserve])
  | reference hsign hletter hequals hname hnumber href =>
    obtain ⟨fuel, rfl⟩ := exists_succ_of_reserve hfuel
    exact run_parenthesis_reference hsign hletter hequals hname hnumber href
  | plain hsign hcolon h ih =>
    obtain ⟨fuel, rfl⟩ := exists_succ_of_reserve hfuel
    have hspans := (hsign.spans hr).append (hcolon.spans (hsign.spans hr).left)
    exact run_parenthesis_mark hsign hcolon (.head _)
      (ih fuel trivial hspans.left (fuel_of_spans hspans hfuel (by simp [Task.reserve])))
  | comment hsign hmark hskip =>
    obtain ⟨fuel, rfl⟩ := exists_succ_of_reserve hfuel
    exact run_parenthesis_comment hsign hmark hskip
  | @ahead _ _ negated _ _ _ _ _ hsign hmark h ih =>
    obtain ⟨fuel, rfl⟩ := exists_succ_of_reserve hfuel
    have hspans := (hsign.spans hr).append (hmark.spans (hsign.spans hr).left)
    have hinside := ih fuel trivial hspans.left
      (fuel_of_spans hspans hfuel (by simp [Task.reserve]))
    cases negated with
    | false => exact run_parenthesis_mark hsign hmark (.tail _ (.head _)) hinside
    | true => exact run_parenthesis_mark hsign hmark (.tail _ (.tail _ (.head _))) hinside
  | behind hsign hangle hmark h hend ih =>
    obtain ⟨fuel, rfl⟩ := exists_add_two_of_parenthesis hfuel
    have hspans := (hsign.spans hr).append ((hangle.spans (hsign.spans hr).left).append
      (hmark.spans (hangle.spans (hsign.spans hr).left).left))
    refine run_parenthesis_behind hsign hangle hmark (ih fuel (fun _ => rfl) ?_ ?_) hend
    · rw [rest_enterBehind]
      exact hspans.left
    · rw [rest_enterBehind]
      exact fuel_of_spans hspans hfuel (by simp [Task.reserve])
  | condition hsign hmark hgroup hbehind hyes hend ih =>
    obtain ⟨fuel, rfl⟩ := exists_add_two_of_parenthesis hfuel
    have hspans := (hsign.spans hr).append (hmark.spans (hsign.spans hr).left)
    obtain ⟨ts, conditions, hspans', -⟩ := run_conditionGroup hspans.left hgroup
    obtain rfl := run_checkBehind_eq_ok hbehind
    refine run_parenthesis_condition hsign hmark hgroup hbehind
      (ih fuel (fun _ => rfl) hspans'.left
        (fuel_of_spans (hspans.append hspans') hfuel (by simp [Task.reserve])))
      (.inl ⟨?_, rfl, rfl⟩) hend
    rw [hend.next?]
    decide
  | conditionElse hsign hmark hgroup hbehind hyes hbar hno hend ihyes ihno =>
    obtain ⟨fuel, rfl⟩ := exists_add_two_of_parenthesis hfuel
    have hspans := (hsign.spans hr).append (hmark.spans (hsign.spans hr).left)
    obtain ⟨ts, conditions, hspans', -⟩ := run_conditionGroup hspans.left hgroup
    obtain rfl := run_checkBehind_eq_ok hbehind
    obtain ⟨us, hspans''⟩ := hyes.exists_spans (fun _ => rfl) hspans'.left
    have hread := (hspans.append hspans').append (hspans''.append (hbar.spans hspans''.left))
    exact run_parenthesis_condition hsign hmark hgroup hbehind
      (ihyes fuel (fun _ => rfl) hspans'.left
        (fuel_of_spans (hspans.append hspans') hfuel (by simp [Task.reserve])))
      (.inr ⟨_, hbar, ihno fuel (fun _ => rfl) hread.left
        (fuel_of_spans hread hfuel (by simp [Task.reserve]))⟩) hend
  | atomic hsign hmark h ih =>
    obtain ⟨fuel, rfl⟩ := exists_succ_of_reserve hfuel
    have hspans := (hsign.spans hr).append (hmark.spans (hsign.spans hr).left)
    exact run_parenthesis_mark hsign hmark (.tail _ (.tail _ (.tail _ (.head _))))
      (ih fuel trivial hspans.left (fuel_of_spans hspans hfuel (by simp [Task.reserve])))
  | setFlags hsign hletter hc hflags =>
    obtain ⟨fuel, rfl⟩ := exists_succ_of_reserve hfuel
    simp only [Task.run, run_parenthesis_flags hsign hletter hc, run_bind, hflags, bind_ok,
      ↓reduceIte, run_pure]
  | flagged hsign hletter hc hflags h ih =>
    obtain ⟨fuel, rfl⟩ := exists_succ_of_reserve hfuel
    have hspans := (hsign.spans hr).append (hletter.spans (hsign.spans hr).left)
    obtain ⟨ts, found, hspans', -⟩ := run_groupFlags hspans.left hflags
    have hinside := ih fuel trivial hspans'.left
      (fuel_of_spans (hspans.append hspans') hfuel (by simp [Task.reserve]))
    simp only [Task.run] at hinside ⊢
    simp only [run_parenthesis_flags hsign hletter hc, run_bind, hflags, bind_ok, hinside, run_pure]
  | enclosed h hend ih =>
    obtain ⟨fuel, rfl⟩ := exists_succ_of_reserve hfuel
    exact run_enclosed (ih fuel (fun _ => rfl) hr (Nat.le_of_succ_le_succ hfuel)) hend

/-! ## Whole patterns -/

/-- What is asked of a pattern whose text has been read. -/
structure Passes (r : Reading) (e : Expr) : Prop where
  classes : (r.flags.ascii && r.flags.unicode) = false
  rest : r.rest = []
  conditions : ∀ number ∈ r.conditions, number ≤ r.widths.size
  unfixed : r.unfixed = false
  loops : (r.flags.noLoops && e.hasLoop) = false

/-- The checks that wait for the end of a pattern. -/
def lastChecks (e : Expr) : Reader Expr := do
  let r ← get
  if r.flags.ascii && r.flags.unicode then throw .conflictingFlags
  if !r.rest.isEmpty then refuse
  if r.conditions.any (r.widths.size < ·) then refuse
  if r.unfixed || (r.flags.noLoops && e.hasLoop) then refuse
  return e

theorem run_lastChecks_eq_ok {e e' : Expr} :
    (lastChecks e).run r = .ok (e', r₁) ↔ Passes r e ∧ e' = e ∧ r₁ = r := by
  have hpasses : Passes r e ↔ ¬(r.flags.ascii && r.flags.unicode) = true ∧
      ¬(!r.rest.isEmpty) = true ∧ ¬(r.conditions.any (r.widths.size < ·)) = true ∧
      ¬(r.unfixed || (r.flags.noLoops && e.hasLoop)) = true := by
    constructor
    · rintro ⟨h₁, h₂, h₃, h₄, h₅⟩
      simp only [Bool.not_eq_true]
      exact ⟨h₁, by simp [h₂], by simpa using h₃, by rw [h₄, h₅]; rfl⟩
    · rintro ⟨h₁, h₂, h₃, h₄⟩
      rw [Bool.not_eq_true, Bool.or_eq_false_iff] at h₄
      exact ⟨by simpa using h₁, by simpa using h₂, by simpa using h₃, h₄.1, h₄.2⟩
  rw [hpasses]
  simp only [lastChecks, run_bind, run_get, bind_ok]
  by_cases h₁ : (r.flags.ascii && r.flags.unicode) = true
  · simp only [h₁, ↓reduceIte, not_true_eq_false, false_and, iff_false]
    rintro ⟨⟩
  by_cases h₂ : (!r.rest.isEmpty) = true
  · simp only [h₁, h₂, ↓reduceIte, not_true_eq_false, false_and, and_false, iff_false,
      Bool.false_eq_true]
    rintro ⟨⟩
  by_cases h₃ : (r.conditions.any (r.widths.size < ·)) = true
  · simp only [h₁, h₂, h₃, ↓reduceIte, not_true_eq_false, false_and, and_false, iff_false,
      Bool.false_eq_true]
    rintro ⟨⟩
  by_cases h₄ : (r.unfixed || (r.flags.noLoops && e.hasLoop)) = true
  · simp only [h₁, h₂, h₃, h₄, ↓reduceIte, not_true_eq_false, false_and, and_false, iff_false,
      Bool.false_eq_true]
    rintro ⟨⟩
  · simp only [h₁, h₂, h₃, h₄, Bool.false_eq_true, ↓reduceIte, run_pure, Except.ok.injEq,
      Prod.mk.injEq, not_false_eq_true, true_and]
    exact and_congr eq_comm eq_comm

theorem run_pattern_eq_ok {e : Expr} :
    pattern.run r = .ok (e, r₁) ↔ r.rest ≠ ['\\'] ∧ ∃ parts,
      Reads (.alternatives none true) r parts r₁ ∧ Passes r₁ e ∧ e = .sequence parts := by
  have heq : pattern.run r = ((goOn r.rest).run r).bind fun out =>
      ((alternatives none (8 * r.rest.length + 8) true).run out.2).bind fun out =>
        (lastChecks (.sequence out.1)).run out.2 := rfl
  rw [heq]
  by_cases hlone : r.rest = ['\\']
  · rw [hlone, run_goOn_lone, bind_error]
    simp
  rw [run_goOn hlone, bind_ok]
  constructor
  · intro h
    obtain ⟨⟨parts, r₂⟩, hparts, hchecks⟩ := exists_of_bind_eq_ok h
    obtain ⟨hpasses, rfl, rfl⟩ := run_lastChecks_eq_ok.mp hchecks
    have hparts : ((Task.alternatives none true).run (8 * r.rest.length + 8)).run r =
        .ok (parts, r₁) := hparts
    exact ⟨hlone, parts, reads_of_run _ _ _ _ _ hparts, hpasses, rfl⟩
  · rintro ⟨-, parts, hreads, hpasses, rfl⟩
    have hrun := hreads.run (8 * r.rest.length + 8) (fun h => by cases h) hlone
      (Nat.add_le_add_left (by decide) _)
    have hparts : (alternatives none (8 * r.rest.length + 8) true).run { r with rest := r.rest } =
        .ok (parts, r₁) := hrun
    rw [hparts, bind_ok]
    exact run_lastChecks_eq_ok.mpr ⟨hpasses, rfl, rfl⟩

end StepTrace.Regex.Reader

namespace StepTrace.Regex

open Reader

/-- A pattern is read if and only if all its text stands in the relation and passes the last
checks. -/
theorem read_eq_ok_iff {source : String} {x : Regex} :
    read source = .ok x ↔ source.toList ≠ ['\\'] ∧ ∃ parts r,
      Reads (.alternatives none true) { rest := source.toList } parts r ∧
        Passes r (.sequence parts) ∧
        x = { source, expr := .sequence parts, groupCount := r.widths.size,
              start := startSet? r.flags.ascii (.sequence parts) } := by
  have heq : read source = (pattern.run { rest := source.toList }).bind fun out =>
      .ok { source, expr := out.1, groupCount := out.2.widths.size,
            start := startSet? out.2.flags.ascii out.1 } := rfl
  rw [heq]
  constructor
  · intro h
    obtain ⟨⟨e, r⟩, hrun, hx⟩ := exists_of_bind_eq_ok h
    obtain ⟨hlone, parts, hreads, hpasses, rfl⟩ := run_pattern_eq_ok.mp hrun
    cases hx
    exact ⟨hlone, parts, r, hreads, hpasses, rfl⟩
  · rintro ⟨hlone, parts, r, hreads, hpasses, rfl⟩
    rw [run_pattern_eq_ok.mpr ⟨hlone, parts, hreads, hpasses, rfl⟩, bind_ok]

/-- The groups of a pattern are the openings that a scan of its text counts. -/
theorem groupCount_eq_openings {source : String} {x : Regex} (h : read source = .ok x) :
    x.groupCount = (({} : Scan).past source.toList).openings := by
  obtain ⟨hlone, parts, r, hreads, hpasses, rfl⟩ := read_eq_ok_iff.mp h
  obtain ⟨ts, hspans, -, hscan⟩ := hreads.inStep hlone fun h => by cases h
  have hscan := (hscan {} [] 0 (.inl rfl) ⟨rfl, rfl, rfl, rfl⟩).2.openings
  rw [Scan.past_spans rfl hspans, hpasses.rest]
  simpa [Scan.past] using hscan.symm

end StepTrace.Regex
