import StepTrace.Proofs.Regex.Openings
import StepTrace.Proofs.Regex.Reads

/-!
# The reader keeps step with the scan

While the reader reads a part of a pattern, a scan of the same characters passes over the same
tokens: it comes to the same flag for blanks, back to the same groups around, and counts the groups
that the reader opens.  So the number of groups of a pattern is the number of openings that the scan
has counted.
-/

namespace StepTrace.Regex

open Reader

namespace Scan

/-- The scan stands where an item may begin, or has passed over a remark to the end of the text. -/
def AtItem (σ : Scan) (s : List Char) : Prop :=
  σ.place = .item ∨ s = [] ∧ σ.place = .passing '\n' false

/-- What a scan has in common with a state of the reader. -/
structure Has (σ : Scan) (verbose : Bool) (outer : List Bool) (openings : Nat) : Prop where
  pending : σ.pending = false
  verbose : σ.verbose = verbose
  outer : σ.outer = outer
  openings : σ.openings = openings

variable {σ : Scan} {verbose : Bool} {outer : List Bool} {openings : Nat}

theorem AtItem.place {s : List Char} (h : σ.AtItem s) (hs : s ≠ []) : σ.place = .item :=
  h.elim id fun hnil => absurd hnil.1 hs

/-- Nothing that counts outside items has changed from the first state to the second, and the scan
stands where an item may begin. -/
structure Keeps (σ : Scan) (s : List Char) (σ₁ : Scan) : Prop where
  item : σ₁.AtItem s
  pending : σ₁.pending = false
  verbose : σ₁.verbose = σ.verbose
  outer : σ₁.outer = σ.outer
  openings : σ₁.openings = σ.openings
  missed : σ₁.missed = σ.missed

theorem Keeps.has {s : List Char} {σ₁ : Scan} (h : σ.Keeps s σ₁)
    (hhas : σ.Has verbose outer openings) : σ₁.Has verbose outer openings :=
  ⟨h.pending, h.verbose.trans hhas.verbose, h.outer.trans hhas.outer,
    h.openings.trans hhas.openings⟩

theorem Has.moved (h : σ.Has verbose outer openings) (place : Place) (slashed : Bool) :
    (σ.moved place slashed).Has verbose outer openings :=
  ⟨rfl, h.verbose, h.outer, h.openings⟩

/-- A capturing group adds a width and an opening. -/
theorem Has.capture {k : Nat} {widths : Array (Option Width)}
    (h : σ.Has verbose outer (k + widths.size)) (missed : Bool) :
    (σ.capture missed).Has verbose (σ.verbose :: σ.outer) (k + (widths.push none).size) := by
  refine ⟨h.pending, h.verbose, rfl, ?_⟩
  rw [Array.size_push, ← Nat.add_assoc, ← h.openings]
  rfl

/-- The first token behind an opening parenthesis belongs to the inside of a plain group already. -/
theorem after_opened {ts : List Token} {r r₁ : Reading} (hplace : σ.place = .opened)
    (hspans : Spans ts r.rest r₁.rest) (hlength : r₁.rest.length < r.rest.length)
    (hnext : next? r ≠ some (.plain '?')) : σ.after ts = (σ.capture σ.guarded).after ts := by
  cases ts with
  | nil =>
    have hrest : r.rest = r₁.rest := hspans.eq
    simp [hrest] at hlength
  | cons t ts =>
    have ht : t ≠ .plain '?' := by
      rintro rfl
      exact hnext (by simp [next?, hspans.nextToken?])
    rw [after_cons, next_opened hplace ht, ← after_cons]

/-- An item that is no group and no class. -/
theorem keeps_items {t : Token} {ts : List Token} {s : List Char} (hplace : σ.place = .item)
    (ht : t ∉ [.plain '(', .plain ')', .plain '[']) (hsign : t = .plain '#' → σ.verbose = false)
    (hts : ∀ t ∈ ts, t.IsHarmless) : σ.Keeps s (σ.after (t :: ts)) := by
  rw [after_cons, next_item hplace ht hsign,
    after_items rfl rfl fun u hu => not_sign_of_isHarmless (hts u hu)]
  exact ⟨.inl rfl, rfl, rfl, rfl, rfl, rfl⟩

theorem next_sign (hplace : σ.place = .item) (hverbose : σ.verbose = true) :
    σ.next (.plain '#') = σ.moved (.passing '\n' false) false := by
  simp only [next, atPlace, hplace, atItem, hverbose, ↓reduceIte, moved]
  rfl

/-- A remark, up to the end of its line or of the text. -/
theorem keeps_remark {ts us : List Token} {s : List Char} (hplace : σ.place = .item)
    (hverbose : σ.verbose = true) (hts : .plain '\n' ∉ ts)
    (hend : us = [.plain '\n'] ∨ us = [] ∧ s = []) :
    σ.Keeps s (σ.after (.plain '#' :: (ts ++ us))) := by
  rw [after_cons, next_sign hplace hverbose, after_append, after_passing rfl rfl hts]
  obtain rfl | ⟨rfl, hnil⟩ := hend
  · exact ⟨.inl rfl, rfl, rfl, rfl, rfl, rfl⟩
  · exact ⟨.inr ⟨hnil, rfl⟩, rfl, rfl, rfl, rfl, rfl⟩

theorem keeps_class {ts : List Token} {s : List Char} (hplace : σ.place = .item)
    (hts : IsClass ts) : σ.Keeps s (σ.after (.plain '[' :: ts)) := by
  rw [after_class hplace hts]
  exact ⟨.inl rfl, rfl, rfl, rfl, rfl, rfl⟩

end Scan

namespace Reader

/-! ## What keeping step means -/

/-- Alternatives or a sequence have been read in step: the scan is where it was, but for the flag of
the whole pattern. -/
def KeepsStep (scope : Option Flags) (r r₁ : Reading) : Prop :=
  ∃ ts, Spans ts r.rest r₁.rest ∧ (scope.isSome → r₁.flags = r.flags) ∧
    ∀ (σ : Scan) outer k, σ.AtItem r.rest →
      σ.Has (scope.getD r.flags).verbose outer (k + r.widths.size) →
      (σ.after ts).AtItem r₁.rest ∧
        (σ.after ts).Has (scope.getD r₁.flags).verbose outer (k + r₁.widths.size)

/-- The inside of a group and its closing parenthesis have been read in step. -/
def LeavesInStep (flags : Flags) (r r₁ : Reading) : Prop :=
  ∃ ts, Spans ts r.rest r₁.rest ∧ r₁.rest.length < r.rest.length ∧ r₁.flags = r.flags ∧
    ∀ (σ : Scan) verbose outer k, σ.AtItem r.rest →
      σ.Has flags.verbose (verbose :: outer) (k + r.widths.size) →
      (σ.after ts).place = .item ∧ (σ.after ts).Has verbose outer (k + r₁.widths.size)

/-- What an opening parenthesis begins has been read in step; flags may have been added if that is
allowed. -/
def OpensInStep (flags : Flags) (flagsAllowed : Bool) (r r₁ : Reading) : Prop :=
  ∃ ts added, Spans ts r.rest r₁.rest ∧ r₁.flags = r.flags.union added ∧
    (flagsAllowed = false → added = {}) ∧
    ∀ (σ : Scan) outer k, σ.place = .opened →
      σ.Has flags.verbose outer (k + r.widths.size) →
      (σ.after ts).place = .item ∧
        (σ.after ts).Has (flags.verbose || added.verbose) outer (k + r₁.widths.size)

/-- The task has been read in step. -/
def Task.InStep : Task → Reading → Reading → Prop
  | .alternatives scope first, r, r₁ => (scope.isSome → first = false) → KeepsStep scope r r₁
  | .branches scope first, r, r₁ => (scope.isSome → first = false) → KeepsStep scope r r₁
  | .sequence scope first _, r, r₁ => (scope.isSome → first = false) → KeepsStep scope r r₁
  | .parenthesis flags flagsAllowed, r, r₁ => OpensInStep flags flagsAllowed r r₁
  | .enclosed flags, r, r₁ => LeavesInStep flags r r₁

variable {scope : Option Flags} {flags : Flags} {flagsAllowed : Bool} {r r₁ r₂ r₃ : Reading}

/-! ## Sequences -/

/-- Tokens that leave the scan where it was, and what is read behind them. -/
theorem KeepsStep.cons {ts : List Token} (hspans : Spans ts r.rest r₁.rest) (hne : r.rest ≠ [])
    (hr₁ : r₁ = { r with rest := r₁.rest })
    (hscan : ∀ σ : Scan, σ.place = .item → σ.verbose = (scope.getD r.flags).verbose →
      σ.Keeps r₁.rest (σ.after ts))
    (h : KeepsStep scope r₁ r₂) : KeepsStep scope r r₂ := by
  obtain ⟨us, hspans', hflags, hrest⟩ := h
  rw [hr₁] at hflags hrest
  refine ⟨ts ++ us, hspans.append hspans', hflags, fun σ outer k hitem hhas => ?_⟩
  have hkeeps := hscan σ (hitem.place hne) hhas.verbose
  rw [Scan.after_append]
  exact hrest _ outer k hkeeps.item (hkeeps.has hhas)

theorem Takes.ne_nil {t : Token} (h : Takes t r r₁) : r.rest ≠ [] := by
  obtain ⟨s, hnext, -⟩ := h
  rintro hnil
  rw [hnil] at hnext
  cases hnext

theorem Takes.eq {t : Token} (h : Takes t r r₁) : r₁ = { r with rest := r₁.rest } := by
  obtain ⟨s, -, -, rfl⟩ := h
  rfl

/-- Tokens none of which is a bracket or begins a remark are passed over in step. -/
theorem KeepsStep.items {t : Token} {ts : List Token} (hr : r.rest ≠ ['\\'])
    (htake : Takes t r r₁) (hspans : Spans ts r₁.rest r₂.rest)
    (hr₂ : r₂ = { r₁ with rest := r₂.rest })
    (ht : t ∉ [.plain '(', .plain ')', .plain '['])
    (hsign : t = .plain '#' → (scope.getD r.flags).verbose = false)
    (hts : ∀ t ∈ ts, t.IsHarmless) (h : KeepsStep scope r₂ r₃) : KeepsStep scope r r₃ :=
  .cons ((htake.spans hr).append hspans) htake.ne_nil (by rw [hr₂, htake.eq])
    (fun _ hplace hverbose => Scan.keeps_items hplace ht
      (fun heq => hverbose.trans (hsign heq)) hts) h

/-- What is skipped from a sign on, with the tokens that end it. -/
theorem exists_remark (hr : r.rest ≠ ['\\'])
    (hskip : (skipPast '\n' true (r.rest.length + 1)).run r = .ok ((), r₁)) :
    r₁ = { r with rest := r₁.rest } ∧ ∃ ts us, .plain '\n' ∉ ts ∧
      Spans (ts ++ us) r.rest r₁.rest ∧ (us = [.plain '\n'] ∨ us = [] ∧ r₁.rest = []) := by
  obtain ⟨hr₁, ts, hts, hspans | ⟨-, hspans, hnil⟩⟩ := run_skipPast hr (Nat.lt_succ_self _) hskip
  · exact ⟨hr₁, ts, _, hts, hspans, .inl rfl⟩
  · exact ⟨hr₁, ts, [], hts, by rwa [List.append_nil], .inr ⟨rfl, hnil⟩⟩

theorem keepsStep_remark (hr : r.rest ≠ ['\\']) (htake : Takes (.plain '#') r r₁)
    (hverbose : (scope.getD r.flags).verbose = true)
    (hskip : (skipPast '\n' true (r₁.rest.length + 1)).run r₁ = .ok ((), r₂))
    (h : KeepsStep scope r₂ r₃) : KeepsStep scope r r₃ := by
  obtain ⟨hr₂, ts, us, hts, hspans, hend⟩ := exists_remark (htake.spans hr).left hskip
  refine .cons ((htake.spans hr).append hspans) htake.ne_nil (by rw [hr₂, htake.eq])
    (fun _ hplace hσ => ?_) h
  rw [List.singleton_append]
  exact Scan.keeps_remark hplace (hσ.trans hverbose) hts hend

theorem keepsStep_charClass {item : Item} (hr : r.rest ≠ ['\\']) (htake : Takes (.plain '[') r r₁)
    (hitem : (charClass flags).run r₁ = .ok (item, r₂)) (h : KeepsStep scope r₂ r₃) :
    KeepsStep scope r r₃ := by
  obtain ⟨ts, hspans, hclass, hr₂, -⟩ := run_charClass (htake.spans hr).left hitem
  exact .cons ((htake.spans hr).append hspans) htake.ne_nil (by rw [hr₂, htake.eq])
    (fun _ hplace _ => Scan.keeps_class hplace hclass) h

theorem KeepsStep.append (h : KeepsStep scope r r₁) (h' : KeepsStep scope r₁ r₂) :
    KeepsStep scope r r₂ := by
  obtain ⟨ts, hspans, hflags, hscan⟩ := h
  obtain ⟨us, hspans', hflags', hscan'⟩ := h'
  refine ⟨ts ++ us, hspans.append hspans', fun hscope => (hflags' hscope).trans (hflags hscope),
    fun σ outer k hitem hhas => ?_⟩
  rw [Scan.after_append]
  obtain ⟨hitem', hhas'⟩ := hscan σ outer k hitem hhas
  exact hscan' _ outer k hitem' hhas'

/-- Two alternatives, with the bar between them. -/
theorem KeepsStep.bar (hr : r₁.rest ≠ ['\\']) (h : KeepsStep scope r r₁)
    (hbar : Takes (.plain '|') r₁ r₂) (h' : KeepsStep scope r₂ r₃) : KeepsStep scope r r₃ :=
  h.append (.items hr hbar (.nil (hbar.spans hr).left) rfl (by simp) (by simp) (by simp) h')

theorem KeepsStep.ne_lone (h : KeepsStep scope r r₁) : r₁.rest ≠ ['\\'] := by
  obtain ⟨ts, hspans, -⟩ := h
  exact hspans.left

theorem union_empty (f : Flags) : f.union {} = f := by
  simp [Flags.union]

/-- Flags that are added at the outermost level count from there on; elsewhere none are. -/
theorem verbose_of_added {first : Bool} {added : Flags} (hscope : scope.isSome → first = false)
    (hfirst : flagsAllowed = true → first) (hadded : r₁.flags = r.flags.union added)
    (hallowed : flagsAllowed = false → added = {}) :
    ((scope.getD r.flags).verbose || added.verbose) = (scope.getD r₁.flags).verbose ∧
      (scope.isSome → r₁.flags = r.flags) := by
  have hnone : scope.isSome → added = {} := by
    intro hsome
    refine hallowed ?_
    cases flagsAllowed with
    | true => simpa [hscope hsome] using hfirst rfl
    | false => rfl
  refine ⟨?_, fun hsome => by rw [hadded, hnone hsome, union_empty]⟩
  cases scope with
  | none => rw [Option.getD_none, Option.getD_none, hadded, Flags.union]
  | some f => simp [hnone rfl]

theorem keepsStep_group {first : Bool} (hscope : scope.isSome → first = false)
    (hr : r.rest ≠ ['\\']) (htake : Takes (.plain '(') r r₁) (hfirst : flagsAllowed = true → first)
    (hopen : OpensInStep (scope.getD r.flags) flagsAllowed r₁ r₂) (h : KeepsStep scope r₂ r₃) :
    KeepsStep scope r r₃ := by
  obtain ⟨ts, added, hspans, hadded, hallowed, hscan⟩ := hopen
  have hflags : r₁.flags = r.flags := by rw [htake.eq]
  have hwidths : r₁.widths = r.widths := by rw [htake.eq]
  rw [hflags] at hadded
  obtain ⟨hverbose, hsame⟩ := verbose_of_added hscope hfirst hadded hallowed
  refine KeepsStep.append ⟨.plain '(' :: ts, (htake.spans hr).append hspans, hsame,
    fun σ outer k hitem hhas => ?_⟩ h
  rw [Scan.after_cons, Scan.next_paren (hitem.place htake.ne_nil)]
  obtain ⟨hplace', hhas'⟩ := hscan { σ.moved .opened false with guarded := σ.slashed } outer k rfl
    ⟨rfl, hhas.verbose, hhas.outer, hwidths ▸ hhas.openings⟩
  exact ⟨.inl hplace', hverbose ▸ hhas'⟩

/-! ## Groups -/

/-- What is inside a group, and its closing parenthesis. -/
theorem KeepsStep.close (h : KeepsStep (some flags) r r₁) (hrest : r₂.rest = r₁.rest)
    (hflags : r₂.flags = r₁.flags) (hwidths : r₂.widths = r₁.widths)
    (hend : Takes (.plain ')') r₂ r₃) : LeavesInStep flags r r₃ := by
  obtain ⟨ts, hspans, hsame, hscan⟩ := h
  rw [← hrest] at hspans
  have hlength := hspans.length_le
  have hlength' := (hend.spans hspans.left).length_le
  rw [List.length_singleton] at hlength'
  refine ⟨ts ++ [.plain ')'], hspans.append (hend.spans hspans.left), by omega,
    by rw [hend.eq]; exact hflags.trans (hsame rfl), fun σ verbose outer k hitem hhas => ?_⟩
  obtain ⟨hitem', hhas'⟩ := hscan σ _ k hitem hhas
  have hplace := hitem'.place (hrest ▸ hend.ne_nil)
  rw [Scan.after_append, Scan.after_cons, Scan.next_close hplace]
  refine ⟨rfl, rfl, ?_, ?_, ?_⟩
  · simp [hhas'.outer]
  · simp [hhas'.outer]
  · rw [hend.eq]
    exact hwidths ▸ hhas'.openings

/-- Only what the scan can see of the last state matters. -/
theorem OpensInStep.congr (h : OpensInStep flags flagsAllowed r r₁) (hrest : r₂.rest = r₁.rest)
    (hflags : r₂.flags = r₁.flags) (hsize : r₂.widths.size = r₁.widths.size) :
    OpensInStep flags flagsAllowed r r₂ := by
  unfold OpensInStep at h ⊢
  rw [hrest, hflags, hsize]
  exact h

/-- Signs that say what kind of group begins, and its inside. -/
theorem LeavesInStep.behind {inner : Flags} (ts : List Token) (opened : Nat)
    (hspans : Spans ts r.rest r₁.rest) (hflags : r₁.flags = r.flags)
    (hsize : r₁.widths.size = r.widths.size + opened)
    (hscan : ∀ σ : Scan, σ.place = .opened → σ.verbose = flags.verbose →
      (σ.after ts).place = .item ∧
        (σ.after ts).Has inner.verbose (σ.verbose :: σ.outer) (σ.openings + opened))
    (h : LeavesInStep inner r₁ r₂) : OpensInStep flags flagsAllowed r r₂ := by
  obtain ⟨us, hspans', -, hflags', hrest⟩ := h
  refine ⟨ts ++ us, {}, hspans.append hspans', by rw [union_empty, hflags', hflags],
    fun _ => rfl, fun σ outer k hplace hhas => ?_⟩
  obtain ⟨hplace', hhas'⟩ := hscan σ hplace hhas.verbose
  rw [Scan.after_append]
  have hlast := hrest _ σ.verbose σ.outer k (.inl hplace') ⟨hhas'.pending, hhas'.verbose,
    hhas'.outer, by rw [hhas'.openings, hhas.openings, hsize, Nat.add_assoc]⟩
  rw [hhas.verbose, hhas.outer] at hlast
  simpa using hlast

/-- A sign behind the question mark, and the inside of the group. -/
theorem opensInStep_sign {c : Char} (hr : r.rest ≠ ['\\']) (hsign : Takes (.plain '?') r r₁)
    (hmark : Takes (.plain c) r₁ r₂) (hc : c ∈ [':', '=', '!', '>'])
    (h : LeavesInStep flags r₂ r₃) : OpensInStep flags flagsAllowed r r₃ := by
  have hspans := (hsign.spans hr).append (hmark.spans (hsign.spans hr).left)
  have hr₂ : r₂ = { r with rest := r₂.rest } := by rw [hmark.eq, hsign.eq]
  have hsize : r₂.widths.size = r.widths.size + 0 := by
    rw [hr₂]
    rfl
  refine h.behind _ 0 hspans (by rw [hr₂]) hsize fun σ hplace hverbose => ?_
  rw [List.singleton_append, Scan.after_sign hplace hc]
  exact ⟨rfl, rfl, hverbose, rfl, rfl⟩

theorem opensInStep_captured {number : Nat} {body : Expr}
    (hnext : next? r ≠ some (.plain '?')) (hopen : (openGroup none).run r = .ok (number, r₁))
    (h : LeavesInStep flags r₁ r₂) (hclose : (closeGroup number body).run r₂ = .ok ((), r₃)) :
    OpensInStep flags flagsAllowed r r₃ := by
  rw [run_openGroup_none] at hopen
  cases hopen
  obtain ⟨width, rfl⟩ := run_closeGroup hclose
  obtain ⟨ts, hspans, hlength, hflags, hscan⟩ := h
  refine ⟨ts, {}, hspans, by rw [union_empty, hflags], fun _ => rfl, fun σ outer k hplace hhas => ?_⟩
  have hinside := hscan (σ.capture σ.guarded) σ.verbose σ.outer k (.inl rfl) (hhas.capture _)
  rw [Scan.after_opened hplace hspans hlength hnext]
  rw [hhas.verbose, hhas.outer] at hinside
  simpa using hinside

theorem opensInStep_named {name : String} {number : Nat} {body : Expr} {r₄ r₅ r₆ r₇ : Reading}
    (hr : r.rest ≠ ['\\']) (hsign : Takes (.plain '?') r r₁) (hletter : Takes (.plain 'P') r₁ r₂)
    (hangle : Takes (.plain '<') r₂ r₃) (hname : (groupName '>').run r₃ = .ok (name, r₄))
    (hopen : (openGroup (some name)).run r₄ = .ok (number, r₅)) (h : LeavesInStep flags r₅ r₆)
    (hclose : (closeGroup number body).run r₆ = .ok ((), r₇)) :
    OpensInStep flags flagsAllowed r r₇ := by
  have hspans₁ := hsign.spans hr
  have hspans₂ := hletter.spans hspans₁.left
  have hspans₃ := hangle.spans hspans₂.left
  obtain ⟨_, hspans₄, ⟨cs, rfl, hcs, -⟩, hr₄, -⟩ := shaped_groupName '>' hspans₃.left hname
  obtain ⟨-, -, hr₅⟩ := run_openGroup_some.mp hopen
  obtain ⟨width, rfl⟩ := run_closeGroup hclose
  have hr₄ : r₄ = { r with rest := r₄.rest } := by rw [hr₄, hangle.eq, hletter.eq, hsign.eq]
  have hrest : r₅.rest = r₄.rest := by rw [hr₅]
  have hsize : r₅.widths.size = r.widths.size + 1 := by rw [hr₅, Array.size_push, hr₄]
  have hspans := hspans₁.append (hspans₂.append (hspans₃.append hspans₄))
  rw [← hrest] at hspans
  refine .congr (h.behind _ 1 hspans ?_ hsize fun σ hplace hverbose => ?_) rfl rfl
    Array.size_setIfInBounds
  · rw [hr₅, hr₄]
  · rw [List.singleton_append, List.singleton_append, List.singleton_append,
      Scan.after_named hplace hcs]
    exact ⟨rfl, rfl, hverbose, rfl, rfl⟩

/-- Text up to a closing parenthesis that is passed over as a whole. -/
theorem opensInStep_passed {ts : List Token} (hspans : Spans ts r.rest r₁.rest)
    (hflags : r₁.flags = r.flags) (hwidths : r₁.widths = r.widths)
    (hscan : ∀ σ : Scan, σ.place = .opened → σ.after ts = σ.moved .item false) :
    OpensInStep flags flagsAllowed r r₁ := by
  refine ⟨ts, {}, hspans, by rw [union_empty, hflags], fun _ => rfl, fun σ outer k hplace hhas => ?_⟩
  rw [hscan σ hplace, hwidths]
  exact ⟨rfl, by simpa using hhas.moved .item false⟩

theorem opensInStep_reference {name : String} {number : Nat} {e : Expr} {r₄ r₅ : Reading}
    (hr : r.rest ≠ ['\\']) (hsign : Takes (.plain '?') r r₁) (hletter : Takes (.plain 'P') r₁ r₂)
    (hequals : Takes (.plain '=') r₂ r₃) (hname : (groupName ')').run r₃ = .ok (name, r₄))
    (href : (backReference flags number).run r₄ = .ok (e, r₅)) :
    OpensInStep flags flagsAllowed r r₅ := by
  have hspans₁ := hsign.spans hr
  have hspans₂ := hletter.spans hspans₁.left
  have hspans₃ := hequals.spans hspans₂.left
  obtain ⟨_, hspans₄, ⟨cs, rfl, hcs, -⟩, hr₄, -⟩ := shaped_groupName ')' hspans₃.left hname
  obtain ⟨rfl, -⟩ := run_backReference_eq_ok href
  have hr₅ : r₅ = { r with rest := r₅.rest } := by rw [hr₄, hequals.eq, hletter.eq, hsign.eq]
  refine opensInStep_passed (hspans₁.append (hspans₂.append (hspans₃.append hspans₄)))
    (by rw [hr₅]) (by rw [hr₅]) fun σ hplace => Scan.after_reference hplace ?_
  simpa using fun h => hcs h

theorem opensInStep_comment (hr : r.rest ≠ ['\\']) (hsign : Takes (.plain '?') r r₁)
    (hmark : Takes (.plain '#') r₁ r₂)
    (hskip : (skipPast ')' false (r₂.rest.length + 1)).run r₂ = .ok ((), r₃)) :
    OpensInStep flags flagsAllowed r r₃ := by
  have hspans₁ := hsign.spans hr
  have hspans₂ := hmark.spans hspans₁.left
  obtain ⟨hr₃, ts, hts, hspans₃ | ⟨hfalse, -⟩⟩ :=
    run_skipPast hspans₂.left (Nat.lt_succ_self _) hskip
  · have hr₃ : r₃ = { r with rest := r₃.rest } := by rw [hr₃, hmark.eq, hsign.eq]
    exact opensInStep_passed (hspans₁.append (hspans₂.append hspans₃)) (by rw [hr₃]) (by rw [hr₃])
      fun σ hplace => Scan.after_comment hplace hts
  · cases hfalse

theorem opensInStep_behind {negated : Bool} {width : Width} {r₄ r₅ : Reading}
    (hr : r.rest ≠ ['\\']) (hsign : Takes (.plain '?') r r₁) (hangle : Takes (.plain '<') r₁ r₂)
    (hmark : Takes (assertionSign negated) r₂ r₃) (h : KeepsStep (some flags) (enterBehind r₃) r₄)
    (hend : Takes (.plain ')') (leaveBehind r₃ r₄) r₅) :
    OpensInStep flags flagsAllowed r (markUnfixed width r₅) := by
  have hspans₁ := hsign.spans hr
  have hspans₂ := hangle.spans hspans₁.left
  have hspans₃ := hmark.spans hspans₂.left
  have hr₃ : r₃ = { r with rest := r₃.rest } := by rw [hmark.eq, hangle.eq, hsign.eq]
  have hinside : KeepsStep (some flags) r₃ r₄ := by
    unfold enterBehind at h
    split at h <;> exact h
  have hsame : (leaveBehind r₃ r₄).rest = r₄.rest ∧ (leaveBehind r₃ r₄).flags = r₄.flags ∧
      (leaveBehind r₃ r₄).widths = r₄.widths := by
    unfold leaveBehind
    split <;> exact ⟨rfl, rfl, rfl⟩
  have hleaves := hinside.close hsame.1 hsame.2.1 hsame.2.2 hend
  have hsize : r₃.widths.size = r.widths.size + 0 := by
    rw [hr₃]
    rfl
  have hopens : OpensInStep flags flagsAllowed r r₅ := by
    refine hleaves.behind _ 0 (hspans₁.append (hspans₂.append hspans₃)) (by rw [hr₃]) hsize
      fun σ hplace hverbose => ?_
    have hafter : σ.after [.plain '?', .plain '<', assertionSign negated] =
        (σ.enter σ.verbose).moved .item false := Scan.after_angle hplace
    rw [List.singleton_append, List.singleton_append, hafter]
    exact ⟨rfl, rfl, hverbose, rfl, rfl⟩
  unfold markUnfixed
  split
  · exact hopens.congr rfl rfl rfl
  · exact hopens

theorem opensInStep_condition {number : Nat} {r₄ r₅ : Reading}
    (hr : r.rest ≠ ['\\']) (hsign : Takes (.plain '?') r r₁) (hmark : Takes (.plain '(') r₁ r₂)
    (hgroup : conditionGroup.run r₂ = .ok (number, r₃))
    (hbehind : (checkBehind number).run r₃ = .ok ((), r₄)) (h : LeavesInStep flags r₄ r₅) :
    OpensInStep flags flagsAllowed r r₅ := by
  have hspans₁ := hsign.spans hr
  have hspans₂ := hmark.spans hspans₁.left
  obtain ⟨ts, conditions, hspans₃, hts, hr₃⟩ := run_conditionGroup hspans₂.left hgroup
  obtain rfl := run_checkBehind_eq_ok hbehind
  have hr₄ : r₄ = { r with rest := r₄.rest, conditions } := by rw [hr₃, hmark.eq, hsign.eq]
  have hsize : r₄.widths.size = r.widths.size + 0 := by
    rw [hr₄]
    rfl
  refine h.behind _ 0 (hspans₁.append (hspans₂.append hspans₃)) (by rw [hr₄]) hsize
    fun σ hplace hverbose => ?_
  rw [List.singleton_append, List.singleton_append, Scan.after_condition hplace hts]
  exact ⟨rfl, rfl, hverbose, rfl, rfl⟩

theorem opensInStep_setFlags {c : Char} (hr : r.rest ≠ ['\\']) (hsign : Takes (.plain '?') r r₁)
    (hletter : Takes (.plain c) r₁ r₂) (hc : c = '-' ∨ (Flags.ofLetter? c).isSome)
    (hflags : (groupFlags c).run r₂ = .ok (none, r₃)) : OpensInStep flags true r r₃ := by
  have hspans₁ := hsign.spans hr
  have hspans₂ := hletter.spans hspans₁.left
  obtain ⟨ts, ⟨added, _ | dropped⟩, hspans₃, hts, hfound, hr₃, -⟩ :=
    run_groupFlags hspans₂.left hflags
  · have hr₃ : r₃ = applied (added, none) { r with rest := r₃.rest } := by
      rw [hr₃, hletter.eq, hsign.eq]
      rfl
    refine ⟨_, added, hspans₁.append (hspans₂.append hspans₃), by rw [hr₃]; rfl, by simp,
      fun σ outer k hplace hhas => ?_⟩
    rw [List.singleton_append, List.singleton_append, Scan.after_groupFlags hplace hc hts, hr₃]
    exact ⟨rfl, rfl, by rw [← hhas.verbose], hhas.outer, hhas.openings⟩
  · cases hfound

theorem opensInStep_flagged {c : Char} {added dropped : Flags} {r₄ : Reading}
    (hr : r.rest ≠ ['\\']) (hsign : Takes (.plain '?') r r₁) (hletter : Takes (.plain c) r₁ r₂)
    (hc : c = '-' ∨ (Flags.ofLetter? c).isSome)
    (hflags : (groupFlags c).run r₂ = .ok (some (added, dropped), r₃))
    (h : LeavesInStep (flags.inGroup added dropped) r₃ r₄) :
    OpensInStep flags flagsAllowed r r₄ := by
  have hspans₁ := hsign.spans hr
  have hspans₂ := hletter.spans hspans₁.left
  obtain ⟨ts, ⟨_, _ | _⟩, hspans₃, hts, hfound, hr₃, -⟩ := run_groupFlags hspans₂.left hflags
  · cases hfound
  · obtain ⟨rfl, rfl⟩ : added = _ ∧ dropped = _ := by simpa using hfound
    have hr₃ : r₃ = { r with rest := r₃.rest } := by
      rw [hr₃, hletter.eq, hsign.eq]
      rfl
    have hsize : r₃.widths.size = r.widths.size + 0 := by
      rw [hr₃]
      rfl
    refine h.behind _ 0 (hspans₁.append (hspans₂.append hspans₃)) (by rw [hr₃]) hsize
      fun σ hplace hverbose => ?_
    rw [List.singleton_append, List.singleton_append, Scan.after_groupFlags hplace hc hts]
    refine ⟨rfl, rfl, ?_, rfl, rfl⟩
    have hinner : (flags.inGroup added dropped).verbose =
        ((flags.verbose || added.verbose) && !dropped.verbose) := by
      unfold Flags.inGroup
      split <;> rfl
    rw [hinner, ← hverbose]
    rfl

theorem ne_lone_of_condition {number : Nat} (hr : r.rest ≠ ['\\'])
    (hgroup : conditionGroup.run r = .ok (number, r₁))
    (hbehind : (checkBehind number).run r₁ = .ok ((), r₂)) : r₂.rest ≠ ['\\'] := by
  obtain ⟨ts, conditions, hspans, -⟩ := run_conditionGroup hr hgroup
  obtain rfl := run_checkBehind_eq_ok hbehind
  exact hspans.left

/-- Signs of repetition are no brackets and begin no remark. -/
theorem not_mem_signs_of_mem_loopSigns {c : Char} (hc : c ∈ ['?', '*', '+', '{']) :
    c ≠ '(' ∧ c ≠ ')' ∧ c ≠ '[' ∧ c ≠ '#' := by
  simp only [List.mem_cons, List.not_mem_nil, or_false] at hc
  obtain rfl | rfl | rfl | rfl := hc <;> decide

/-- Whatever is read is read in step. -/
theorem Reads.inStep {task : Task} {x : task.Out} (h : Reads task r x r₁) (hr : r.rest ≠ ['\\']) :
    task.InStep r r₁ := by
  -- A premise is in step only where no backslash is left alone.  That is shown of the text before
  -- each premise; the step of its rule does the rest.
  induction h with
  | alternatives h ih => exact ih hr
  | lastBranch h hnext ih => exact ih hr
  | branch h hbar hothers ih ihothers =>
    intro hscope
    have hfirst := ih hr hscope
    exact hfirst.bar hfirst.ne_lone hbar
      (ihothers (hbar.spans hfirst.ne_lone).left fun _ => rfl)
  | done hnext =>
    intro _
    exact ⟨[], .nil hr, fun _ => rfl, fun σ outer k hitem hhas => ⟨hitem, hhas⟩⟩
  | escape htake hitem h ih =>
    intro hscope
    obtain ⟨ts, hspans, hts, hr₂, -⟩ := textual_escape _ _ (htake.spans hr).left hitem
    exact .items hr htake hspans hr₂ (by simp) (by simp) hts (ih hspans.left hscope)
  | remark htake hverbose hskip h ih =>
    intro hscope
    obtain ⟨ts, hspans⟩ := exists_spans_skipPast (htake.spans hr).left hskip
    exact keepsStep_remark hr htake hverbose hskip (ih hspans.left hscope)
  | charClass htake hitem h ih =>
    intro hscope
    obtain ⟨ts, hspans, -⟩ := run_charClass (htake.spans hr).left hitem
    exact keepsStep_charClass hr htake hitem (ih hspans.left hscope)
  | loop htake hc hcounts hlast hmode h ih =>
    intro hscope
    obtain ⟨ts, hspans, hts, hr₂, -⟩ := textual_counts? _ (htake.spans hr).left hcounts
    obtain ⟨us, hspans', hus, hr₃, -⟩ := textual_loopMode hspans.left hmode
    have hplain := not_mem_signs_of_mem_loopSigns hc
    refine .items hr htake (hspans.append hspans') (by rw [hr₃, hr₂]) (by simp [hplain])
      (by simp [hplain]) (fun t ht => ?_) (ih hspans'.left hscope)
    exact (List.mem_append.mp ht).elim (hts t) (hus t)
  | brace htake hcounts h ih =>
    intro hscope
    obtain ⟨ts, hspans, hts, hr₂, -⟩ := textual_bracedCounts? (htake.spans hr).left hcounts
    exact .items hr htake hspans hr₂ (by simp) (by simp) hts (ih hspans.left hscope)
  | single htake hc hsign h ih =>
    intro hscope
    have hspans := Spans.nil (htake.spans hr).left
    simp only [List.mem_cons, List.not_mem_nil, or_false, not_or] at hc
    refine .items hr htake hspans rfl (by simp [hc]) (fun heq => hsign ?_) (by simp)
      (ih hspans.left hscope)
    exact Token.plain.inj heq
  | group htake hopen h ihopen ih =>
    intro hscope
    have hopens := ihopen (htake.spans hr).left
    obtain ⟨ts, added, hspans, -⟩ := id hopens
    refine keepsStep_group hscope hr htake ?_ hopens (ih hspans.left hscope)
    exact fun hallowed => (Bool.and_eq_true_iff.mp hallowed).1
  | captured hnext hopen h hclose ih =>
    refine opensInStep_captured hnext hopen (ih ?_) hclose
    rw [run_openGroup_none] at hopen
    cases hopen
    exact hr
  | named hsign hletter hangle hname hopen h hclose ih =>
    refine opensInStep_named hr hsign hletter hangle hname hopen (ih ?_) hclose
    obtain ⟨-, -, rfl⟩ := run_openGroup_some.mp hopen
    have hleft := (hangle.spans (hletter.spans (hsign.spans hr).left).left).left
    obtain ⟨ts, hspans, -⟩ := shaped_groupName '>' hleft hname
    exact hspans.left
  | reference hsign hletter hequals hname hnumber href =>
    exact opensInStep_reference hr hsign hletter hequals hname href
  | plain hsign hcolon h ih =>
    have hleft := (hcolon.spans (hsign.spans hr).left).left
    exact opensInStep_sign hr hsign hcolon (by simp) (ih hleft)
  | comment hsign hmark hskip => exact opensInStep_comment hr hsign hmark hskip
  | ahead hsign hmark h ih =>
    have hleft := (hmark.spans (hsign.spans hr).left).left
    exact opensInStep_sign hr hsign hmark (by split <;> simp) (ih hleft)
  | behind hsign hangle hmark h hend ih =>
    have hleft := (hmark.spans (hangle.spans (hsign.spans hr).left).left).left
    refine opensInStep_behind hr hsign hangle hmark (ih ?_ fun _ => rfl) hend
    unfold enterBehind
    split <;> exact hleft
  | condition hsign hmark hgroup hbehind hyes hend ih =>
    have hleft := ne_lone_of_condition (hmark.spans (hsign.spans hr).left).left hgroup hbehind
    exact opensInStep_condition hr hsign hmark hgroup hbehind
      ((ih hleft fun _ => rfl).close rfl rfl rfl hend)
  | conditionElse hsign hmark hgroup hbehind hyes hbar hno hend ihyes ihno =>
    have hleft := ne_lone_of_condition (hmark.spans (hsign.spans hr).left).left hgroup hbehind
    have hfirst := ihyes hleft fun _ => rfl
    have hsecond := ihno (hbar.spans hfirst.ne_lone).left fun _ => rfl
    exact opensInStep_condition hr hsign hmark hgroup hbehind
      ((hfirst.bar hfirst.ne_lone hbar hsecond).close rfl rfl rfl hend)
  | atomic hsign hmark h ih =>
    have hleft := (hmark.spans (hsign.spans hr).left).left
    exact opensInStep_sign hr hsign hmark (by simp) (ih hleft)
  | setFlags hsign hletter hc hflags => exact opensInStep_setFlags hr hsign hletter hc hflags
  | flagged hsign hletter hc hflags h ih =>
    have hleft := (hletter.spans (hsign.spans hr).left).left
    refine opensInStep_flagged hr hsign hletter hc hflags (ih ?_)
    obtain ⟨ts, found, hspans, -⟩ := run_groupFlags hleft hflags
    exact hspans.left
  | enclosed h hend ih => exact (ih hr fun _ => rfl).close rfl rfl rfl hend

end Reader

end StepTrace.Regex
