import StepTrace.Proofs.Regex.Parts
import StepTrace.Proofs.Regex.Runs

/-!
# The numbers of groups

The groups of a pattern are numbered from one on, in the order in which they are opened
(`groupNumbers_eq`).  Common parts of alternatives, which come out in front, are no groups, and a
group that is repeated stands in the tree once.
-/

namespace StepTrace.Regex

namespace Expr

/-- The numbers of the groups of a pattern, in the order of their openings. -/
def groupNumbers : Expr → List Nat
  | empty | one _ | same _ _ | anchor _ => []
  | seq first second | either first second | ifGroup _ first second =>
    first.groupNumbers ++ second.groupNumbers
  | group number body => number :: body.groupNumbers
  | flagged body | loop _ _ _ body | ahead _ body | behind _ _ body | atomic body =>
    body.groupNumbers

/-- The numbers of the groups of parts. -/
def numbersOf (parts : List Expr) : List Nat :=
  parts.flatMap groupNumbers

@[simp] theorem numbersOf_nil : numbersOf [] = [] :=
  rfl

@[simp] theorem numbersOf_cons (e : Expr) (parts : List Expr) :
    numbersOf (e :: parts) = e.groupNumbers ++ numbersOf parts :=
  rfl

@[simp] theorem numbersOf_append (parts others : List Expr) :
    numbersOf (parts ++ others) = numbersOf parts ++ numbersOf others :=
  List.flatMap_append

@[simp] theorem groupNumbers_sequence (parts : List Expr) :
    (sequence parts).groupNumbers = numbersOf parts := by
  induction parts with
  | nil => rfl
  | cons e parts ih =>
    cases parts with
    | nil => exact (List.append_nil _).symm
    | cons d parts => exact congrArg (e.groupNumbers ++ ·) ih

theorem groupNumbers_inOrder (found : List (List Expr)) :
    (inOrder found).groupNumbers = found.flatMap numbersOf := by
  induction found with
  | nil => rfl
  | cons parts found ih =>
    cases found with
    | nil => simp [inOrder]
    | cons other found =>
      have heq : (inOrder (parts :: other :: found)).groupNumbers =
          (sequence parts).groupNumbers ++ (inOrder (other :: found)).groupNumbers := rfl
      rw [heq, ih, groupNumbers_sequence]
      rfl

theorem groupNumbers_of_isSimple {e : Expr} (h : e.isSimple = true) : e.groupNumbers = [] := by
  cases e with
  | one _ | same _ _ | anchor _ => rfl
  | _ => cases h

theorem numbersOf_joined (folding : Folding) (found : List (List Expr)) :
    numbersOf (joined folding found) = found.flatMap numbersOf := by
  obtain ⟨rfl, heq⟩ | ⟨parts, rfl, heq⟩ | ⟨common, left, rest, rfl, -, hcommon, heq, hrest⟩ :=
    joined_cases folding found
  · rw [heq]
    rfl
  · simp [heq]
  have hnone : numbersOf common = [] :=
    List.flatMap_eq_nil_iff.mpr fun e he => groupNumbers_of_isSimple (hcommon e he)
  have hleft : rest.groupNumbers = left.flatMap numbersOf := by
    obtain rfl | ⟨set, hclass, rfl⟩ := hrest
    · exact groupNumbers_inOrder left
    · obtain ⟨items, hitems, -⟩ := asClass?_spec hclass
      clear hclass heq
      induction hitems with
      | nil => rfl
      | cons hfirst _ ih =>
        obtain ⟨test, rfl, -⟩ := classItems?_eq_some hfirst
        exact ih
  rw [heq, numbersOf_append, hnone, numbersOf_cons, hleft, List.flatMap_map]
  simp [hnone]

end Expr

namespace Reader

open Regex.Expr

variable {r r₁ r₂ r₃ : Reading} {l l' : List Nat} {flags : Flags} {items : List Item}
  {parts : List Expr}

/-- From the first state to the second, groups with these numbers have been opened. -/
def Opens (r r₁ : Reading) (l : List Nat) : Prop :=
  ∃ n, r₁.widths.size = r.widths.size + n ∧ l = List.range' (r.widths.size + 1) n

theorem Opens.nil (h : r₁.widths.size = r.widths.size) : Opens r r₁ [] :=
  ⟨0, h, rfl⟩

theorem Opens.append (h : Opens r r₁ l) (h' : Opens r₁ r₂ l') : Opens r r₂ (l ++ l') := by
  obtain ⟨m, hm, rfl⟩ := h
  obtain ⟨n, hn, rfl⟩ := h'
  refine ⟨m + n, by rw [hn, hm, Nat.add_assoc], ?_⟩
  rw [hm, Nat.add_right_comm, List.range'_append_1]

theorem Opens.congr {r' r₁' : Reading} (h : Opens r' r₁' l) (hsize : r'.widths.size = r.widths.size)
    (hsize' : r₁'.widths.size = r₁.widths.size) : Opens r r₁ l := by
  rw [Opens, ← hsize, ← hsize']
  exact h

/-- A group is opened, and inside it others are. -/
theorem Opens.group (hopen : r₁.widths.size = r.widths.size + 1) (h : Opens r₁ r₂ l) :
    Opens r r₂ ((r.widths.size + 1) :: l) := by
  obtain ⟨n, hn, rfl⟩ := h
  exact ⟨n + 1, by omega, by rw [hopen, List.range'_succ]⟩

/-- The numbers of the groups of items, the last of which was read last. -/
def itemNumbers (items : List Item) : List Nat :=
  numbersOf (items.reverse.flatMap (·.parts))

theorem itemNumbers_append (found : Option Item) (items : List Item) :
    itemNumbers (found.toList ++ items) =
      itemNumbers items ++ numbersOf (found.toList.flatMap (·.parts)) := by
  cases found <;> simp [itemNumbers]

/-- A sequence goes on behind the items, with groups that are opened there. -/
def GoesOn (items : List Item) (r : Reading) (parts : List Expr) (r₁ : Reading) : Prop :=
  ∃ l, numbersOf parts = itemNumbers items ++ l ∧ Opens r r₁ l

theorem GoesOn.item (found : Option Item)
    (hopen : Opens r r₁ (numbersOf (found.toList.flatMap (·.parts))))
    (h : GoesOn (found.toList ++ items) r₁ parts r₂) : GoesOn items r parts r₂ := by
  obtain ⟨l, hparts, hrest⟩ := h
  refine ⟨_, ?_, hopen.append hrest⟩
  rw [hparts, itemNumbers_append, List.append_assoc]

theorem GoesOn.opens (h : GoesOn [] r parts r₁) : Opens r r₁ (numbersOf parts) := by
  obtain ⟨l, hparts, hopens⟩ := h
  rw [hparts]
  exact hopens

theorem Item.IsAtom.numbersOf_eq {item : Item} (h : item.IsAtom flags) : numbersOf item.parts = [] := by
  obtain ⟨e, hparts, hleaf⟩ := h
  have hsimple : e.isSimple = true := by
    obtain hleaf | ⟨number, rfl⟩ := hleaf
    · cases e with
      | one _ | anchor _ => rfl
      | _ => cases hleaf
    · rfl
  rw [hparts, numbersOf_cons, groupNumbers_of_isSimple hsimple]
  rfl

/-- An item without groups. -/
theorem GoesOn.atom {item : Item} (hitem : item.IsAtom flags) (hwidths : r₁.widths.size = r.widths.size)
    (h : GoesOn (item :: items) r₁ parts r₂) : GoesOn items r parts r₂ := by
  refine GoesOn.item (some item) ?_ h
  rw [Option.toList_some, List.flatMap_singleton, hitem.numbersOf_eq]
  exact .nil hwidths

/-- What is read for the task has its groups numbered as they are opened. -/
def Task.Numbered : (task : Task) → Reading → task.Out → Reading → Prop
  | .alternatives _ _, r, parts, r₁ => Opens r r₁ (numbersOf parts)
  | .branches _ _, r, found, r₁ => Opens r r₁ (found.flatMap numbersOf)
  | .sequence _ _ items, r, parts, r₁ => GoesOn items r parts r₁
  | .parenthesis _ _, r, found, r₁ => Opens r r₁ (numbersOf (found.toList.flatMap (·.parts)))
  | .enclosed _, r, parts, r₁ => Opens r r₁ (numbersOf parts)

theorem Takes.widths {t : Token} (h : Takes t r r₁) : r₁.widths.size = r.widths.size := by
  rw [h.eq]

theorem widths_enterBehind (r : Reading) : (enterBehind r).widths = r.widths := by
  unfold enterBehind
  split <;> rfl

theorem widths_leaveBehind (outer r : Reading) : (leaveBehind outer r).widths = r.widths := by
  unfold leaveBehind
  split <;> rfl

theorem widths_markUnfixed (width : Width) (r : Reading) :
    (markUnfixed width r).widths = r.widths := by
  unfold markUnfixed
  split <;> rfl

theorem numbersOf_loopItem (mode : LoopMode) (least : Nat) (most : Option Nat) (last : Item)
    (items : List Item) :
    itemNumbers (loopItem mode least most last :: items) = itemNumbers (last :: items) := by
  simp [itemNumbers, loopItem, groupNumbers]

/-- A capturing group. -/
theorem opens_captured {name : Option String} {number : Nat} {body : Expr}
    (hopen : (openGroup name).run r = .ok (number, r₁)) (h : Opens r₁ r₂ l)
    (hclose : (closeGroup number body).run r₂ = .ok ((), r₃)) : Opens r r₃ (number :: l) := by
  obtain ⟨width, rfl⟩ := run_closeGroup hclose
  have hnumber : number = r.widths.size + 1 ∧ r₁.widths.size = r.widths.size + 1 := by
    cases name with
    | none =>
      rw [run_openGroup_none] at hopen
      cases hopen
      exact ⟨rfl, Array.size_push _⟩
    | some name =>
      obtain ⟨-, hnumber, rfl⟩ := run_openGroup_some.mp hopen
      exact ⟨hnumber, Array.size_push _⟩
  rw [hnumber.1]
  exact (Opens.group hnumber.2 h).congr rfl Array.size_setIfInBounds.symm

/-- Signs before the inside of a group, which is all that opens groups. -/
theorem Opens.behind (hwidths : r₁.widths.size = r.widths.size) (h : Opens r₁ r₂ l) :
    Opens r r₂ l :=
  h.congr hwidths rfl

/-- An expression of its own around parts, which is no group. -/
theorem opens_ofExpr {e : Expr} (heq : e.groupNumbers = l) (h : Opens r r₁ l) :
    Opens r r₁ (numbersOf ((some (Item.ofExpr e)).toList.flatMap (·.parts))) := by
  have hnumbers : numbersOf ((some (Item.ofExpr e)).toList.flatMap (·.parts)) = l := by
    simp [Item.ofExpr, heq]
  rw [hnumbers]
  exact h

theorem widths_condition {number : Nat} (hr : r.rest ≠ ['\\'])
    (hgroup : conditionGroup.run r = .ok (number, r₁))
    (hbehind : (checkBehind number).run r₁ = .ok ((), r₂)) :
    r₂.widths.size = r.widths.size := by
  obtain ⟨ts, conditions, -, -, hr₁⟩ := run_conditionGroup hr hgroup
  obtain rfl := run_checkBehind_eq_ok hbehind
  rw [hr₁]

theorem widths_groupFlags {c : Char} {found : Option (Flags × Flags)} (hr : r.rest ≠ ['\\'])
    (h : (groupFlags c).run r = .ok (found, r₁)) : r₁.widths.size = r.widths.size := by
  obtain ⟨ts, ⟨added, dropped⟩, -, -, -, hr₁, -⟩ := run_groupFlags hr h
  rw [hr₁]
  cases dropped <;> rfl

/-- The groups of whatever is read are numbered as they are opened. -/
theorem Reads.numbered {task : Task} {x : task.Out} (h : Reads task r x r₁) (hproper : task.Proper)
    (hr : r.rest ≠ ['\\']) : task.Numbered r x r₁ := by
  -- Only a group that captures adds to the widths.  Whatever else a rule takes leaves them alone,
  -- so what the rule's premises open is what it opens, once both ends are carried over.
  induction h with
  | alternatives h ih =>
    rw [Task.Numbered, numbersOf_joined]
    exact ih hproper hr
  | lastBranch h hnext ih =>
    rw [Task.Numbered, List.flatMap_singleton]
    exact (ih hproper hr).opens
  | branch h hbar hothers ih ihothers =>
    obtain ⟨ts, hspans⟩ := h.exists_spans hproper hr
    rw [Task.Numbered, List.flatMap_cons]
    exact (ih hproper hr).opens.append
      ((ihothers (fun _ => rfl) (hbar.spans hspans.left).left).behind hbar.widths)
  | done hnext => exact ⟨[], (List.append_nil _).symm, .nil rfl⟩
  | escape htake hitem h ih =>
    obtain ⟨ts, hspans, hts, hr₂, -⟩ := textual_escape _ _ (htake.spans hr).left hitem
    refine .atom (yields_escape _ _ hitem) ?_ (ih hproper hspans.left)
    rw [hr₂]
    exact htake.widths
  | remark htake hverbose hskip h ih =>
    obtain ⟨hr₂, ts, us, -, hspans, -⟩ := exists_remark (htake.spans hr).left hskip
    refine GoesOn.item none (.nil ?_) (ih hproper hspans.left)
    rw [hr₂]
    exact htake.widths
  | charClass htake hitem h ih =>
    obtain ⟨ts, hspans, -, hr₂, -⟩ := run_charClass (htake.spans hr).left hitem
    refine .atom (yields_charClass _ hitem).isAtom ?_ (ih hproper hspans.left)
    rw [hr₂]
    exact htake.widths
  | loop htake hc hcounts hlast hmode h ih =>
    obtain ⟨ts, hspans, hts, hr₂, -⟩ := textual_counts? _ (htake.spans hr).left hcounts
    obtain ⟨us, hspans', hus, hr₃, -⟩ := textual_loopMode hspans.left hmode
    obtain ⟨l, hparts, hopens⟩ := ih hproper hspans'.left
    rw [numbersOf_loopItem] at hparts
    refine ⟨l, hparts, hopens.behind ?_⟩
    rw [hr₃, hr₂]
    exact htake.widths
  | brace htake hcounts h ih =>
    obtain ⟨ts, hspans, hts, hr₂, -⟩ := textual_bracedCounts? (htake.spans hr).left hcounts
    refine .atom (isLeaf_code _ _).isAtom ?_ (ih hproper hspans.left)
    rw [hr₂]
    exact htake.widths
  | @single scope _ items r c r₁ _ _ htake hc hsign h ih =>
    have hrest := ih hproper (htake.spans hr).left
    cases hitem : singleItem (scope.getD r.flags) c with
    | none =>
      rw [hitem] at hrest
      exact GoesOn.item none (.nil htake.widths) hrest
    | some item =>
      rw [hitem] at hrest
      exact .atom (isLeaf_singleItem hitem).isAtom htake.widths hrest
  | group htake hopen h ihopen ih =>
    obtain ⟨ts, hspans⟩ := hopen.exists_spans trivial (htake.spans hr).left
    exact GoesOn.item _ ((ihopen trivial (htake.spans hr).left).behind htake.widths)
      (ih hproper hspans.left)
  | captured hnext hopen h hclose ih =>
    refine opens_ofExpr ?_ (opens_captured hopen (ih trivial ?_) hclose)
    · rw [groupNumbers, groupNumbers_sequence]
    · rw [run_openGroup_none] at hopen
      cases hopen
      exact hr
  | named hsign hletter hangle hname hopen h hclose ih =>
    have hleft := (hangle.spans (hletter.spans (hsign.spans hr).left).left).left
    obtain ⟨ts, hspans, -, hr₄, -⟩ := shaped_groupName '>' hleft hname
    refine opens_ofExpr ?_ ((opens_captured hopen (ih trivial ?_) hclose).behind ?_)
    · rw [groupNumbers, groupNumbers_sequence]
    · obtain ⟨-, -, rfl⟩ := run_openGroup_some.mp hopen
      exact hspans.left
    · rw [hr₄]
      exact hangle.widths.trans (hletter.widths.trans hsign.widths)
  | reference hsign hletter hequals hname hnumber href =>
    have hleft := (hequals.spans (hletter.spans (hsign.spans hr).left).left).left
    obtain ⟨ts, hspans, -, hr₄, -⟩ := shaped_groupName ')' hleft hname
    obtain ⟨rfl, rfl⟩ := run_backReference_eq_ok href
    refine .nil ?_
    rw [hr₄]
    exact hequals.widths.trans (hletter.widths.trans hsign.widths)
  | plain hsign hcolon h ih =>
    have hleft := (hcolon.spans (hsign.spans hr).left).left
    rw [Task.Numbered, Option.toList_some, List.flatMap_singleton]
    exact (ih trivial hleft).behind (hcolon.widths.trans hsign.widths)
  | comment hsign hmark hskip =>
    have hleft := (hmark.spans (hsign.spans hr).left).left
    obtain ⟨hr₃, -⟩ := run_skipPast hleft (Nat.lt_succ_self _) hskip
    refine .nil ?_
    rw [hr₃]
    exact hmark.widths.trans hsign.widths
  | ahead hsign hmark h ih =>
    have hleft := (hmark.spans (hsign.spans hr).left).left
    exact opens_ofExpr (groupNumbers_sequence _)
      ((ih trivial hleft).behind (hmark.widths.trans hsign.widths))
  | behind hsign hangle hmark h hend ih =>
    have hleft := (hmark.spans (hangle.spans (hsign.spans hr).left).left).left
    have hinside := ih (fun _ => rfl) (by rwa [rest_enterBehind])
    refine opens_ofExpr (groupNumbers_sequence _) (hinside.congr ?_ ?_)
    · rw [widths_enterBehind]
      exact hmark.widths.trans (hangle.widths.trans hsign.widths)
    · rw [widths_markUnfixed, hend.widths, widths_leaveBehind]
  | condition hsign hmark hgroup hbehind hyes hend ih =>
    have hleft := (hmark.spans (hsign.spans hr).left).left
    have hinside := ih (fun _ => rfl) (ne_lone_of_condition hleft hgroup hbehind)
    refine opens_ofExpr ?_ (hinside.opens.congr ?_ hend.widths.symm)
    · rw [groupNumbers, groupNumbers_sequence, groupNumbers, List.append_nil]
    · exact (widths_condition hleft hgroup hbehind).trans (hmark.widths.trans hsign.widths)
  | conditionElse hsign hmark hgroup hbehind hyes hbar hno hend ihyes ihno =>
    have hleft := (hmark.spans (hsign.spans hr).left).left
    have hleft' := ne_lone_of_condition hleft hgroup hbehind
    obtain ⟨ts, hspans⟩ := hyes.exists_spans (fun _ => rfl) hleft'
    have hfirst := (ihyes (fun _ => rfl) hleft').opens
    have hsecond := (ihno (fun _ => rfl) (hbar.spans hspans.left).left).opens
    refine opens_ofExpr ?_ ((hfirst.append (hsecond.behind hbar.widths)).congr ?_ hend.widths.symm)
    · rw [groupNumbers, groupNumbers_sequence, groupNumbers_sequence]
    · exact (widths_condition hleft hgroup hbehind).trans (hmark.widths.trans hsign.widths)
  | atomic hsign hmark h ih =>
    have hleft := (hmark.spans (hsign.spans hr).left).left
    exact opens_ofExpr (groupNumbers_sequence _)
      ((ih trivial hleft).behind (hmark.widths.trans hsign.widths))
  | setFlags hsign hletter hc hflags =>
    have hleft := (hletter.spans (hsign.spans hr).left).left
    exact .nil ((widths_groupFlags hleft hflags).trans (hletter.widths.trans hsign.widths))
  | flagged hsign hletter hc hflags h ih =>
    have hleft := (hletter.spans (hsign.spans hr).left).left
    obtain ⟨ts, found, hspans, -⟩ := run_groupFlags hleft hflags
    have hwidths := widths_groupFlags hleft hflags
    exact opens_ofExpr (groupNumbers_sequence _)
      ((ih trivial hspans.left).behind (hwidths.trans (hletter.widths.trans hsign.widths)))
  | enclosed h hend ih => exact (ih (fun _ => rfl) hr).congr rfl hend.widths.symm

end Reader

open Reader

/-- The groups of a pattern that has been read are numbered from one on, in order. -/
theorem groupNumbers_eq {source : String} {x : Regex} (h : read source = .ok x) :
    x.expr.groupNumbers = List.range' 1 x.groupCount := by
  obtain ⟨hlone, parts, r, hreads, -, rfl⟩ := read_eq_ok_iff.mp h
  obtain ⟨n, hn, hnumbers⟩ := hreads.numbered (fun h => by cases h) hlone
  have hsize : r.widths.size = n := by simpa using hn
  rw [Expr.groupNumbers_sequence, hnumbers, hsize]
  rfl

end StepTrace.Regex
