import StepTrace.Proofs.Regex.Alternatives
import StepTrace.Proofs.Regex.Reads

/-!
# What patterns are made of

The parts of a pattern that have no parts of their own are tests of one character, anchors and
references.  `Expr.IsLeaf` says of the first two that they compare letters and choose classes as the
flags ask for; every item that the reader makes of an escape, a class or a single character is made
of these, unless it refers to a group.
-/

namespace StepTrace.Regex

/-! ## Leaves -/

/-- A named class chooses its alphabet as the flags ask for. -/
def SetItem.Under (flags : Flags) : SetItem → Prop
  | .char _ | .range _ _ => True
  | .named _ ascii _ => ascii = flags.ascii

/-- The test compares letters and chooses classes as the flags ask for. -/
def CharTest.Under (flags : Flags) : CharTest → Prop
  | .any _ => True
  | .letter _ _ folding => folding = flags.folding
  | .set s => s.folding = flags.folding ∧ ∀ item ∈ s.items, item.Under flags

/-- The pattern is an anchor, or tests one character under the flags. -/
def Expr.IsLeaf (flags : Flags) : Expr → Prop
  | .one test => test.Under flags
  | .anchor _ => True
  | _ => False

namespace Reader

/-- The item is made of leaves. -/
def Item.IsLeaf (flags : Flags) (item : Item) : Prop :=
  ∃ e, item.parts = [e] ∧ e.IsLeaf flags

variable {α β : Type} {Q : α → Prop} {flags : Flags} {f : Reader α} {c : Char}

/-- Whatever the function results in satisfies `Q`. -/
def Yields (Q : α → Prop) (f : Reader α) : Prop :=
  ∀ ⦃r x r₁⦄, f.run r = .ok (x, r₁) → Q x

theorem yields_pure {a : α} (h : Q a) : Yields Q (pure a) := by
  intro r x r₁ hrun
  cases hrun
  exact h

theorem yields_refuse : Yields Q (refuse : Reader α) := by
  intro r x r₁ hrun
  cases hrun

theorem yields_refuse_bind {g : β → Reader α} : Yields Q (refuse >>= g) :=
  yields_refuse

theorem Yields.bind {Q' : β → Prop} {g : α → Reader β} (hf : Yields Q f)
    (hg : ∀ a, Q a → Yields Q' (g a)) : Yields Q' (f >>= g) := by
  intro r x r₁ hrun
  obtain ⟨a, r₂, hfirst, hsecond⟩ := run_bind_eq_ok.mp hrun
  exact hg a (hf hfirst) hsecond

theorem yields_bind {Q' : β → Prop} {g : α → Reader β} (hg : ∀ a, Yields Q' (g a)) :
    Yields Q' (f >>= g) :=
  Yields.bind (Q := fun _ => True) (fun _ _ _ _ => trivial) fun a _ => hg a

theorem yields_ite {p : Prop} [Decidable p] {g : Reader α} (hf : Yields Q f) (hg : Yields Q g) :
    Yields Q (if p then f else g) := by
  split
  · exact hf
  · exact hg

theorem yields_classEscape (flags : Flags) (c : Char) :
    Yields (SetItem.Under flags) (classEscape flags c) := by
  unfold classEscape
  split
  · exact yields_pure trivial
  split
  · exact yields_pure rfl
  split
  · exact yields_bind fun _ => yields_pure trivial
  split
  · exact yields_bind fun _ => yields_ite yields_refuse_bind (yields_pure trivial)
  · exact yields_ite yields_refuse_bind (yields_pure trivial)

theorem yields_classEntry (flags : Flags) (t : Token) :
    Yields (SetItem.Under flags) (classEntry flags t) := by
  cases t with
  | plain c => exact yields_pure trivial
  | escaped c => exact yields_classEscape flags c

theorem yields_classRange (first : Token) {items : List SetItem}
    (h : ∀ item ∈ items, item.Under flags) :
    Yields (fun found => ∀ item ∈ found.1, item.Under flags) (classRange flags first items) := by
  unfold classRange
  refine (yields_classEntry flags first).bind fun low hlow => yields_bind fun dash => ?_
  have hentry : ∀ item ∈ low :: items, item.Under flags := List.forall_mem_cons.mpr ⟨hlow, h⟩
  refine yields_ite ?_ (yields_pure hentry)
  refine yields_bind fun found => ?_
  split
  · exact yields_refuse
  · refine yields_ite (yields_pure (List.forall_mem_cons.mpr ⟨trivial, hentry⟩)) ?_
    refine yields_bind fun high => ?_
    split
    · exact yields_ite yields_refuse_bind (yields_pure (List.forall_mem_cons.mpr ⟨trivial, h⟩))
    · exact yields_refuse

theorem yields_classItems (fuel : Nat) {items : List SetItem}
    (h : ∀ item ∈ items, item.Under flags) :
    Yields (fun found => ∀ item ∈ found, item.Under flags) (classItems flags fuel items) := by
  induction fuel generalizing items with
  | zero => exact yields_refuse
  | succ fuel ih =>
    rw [classItems_succ]
    refine yields_bind fun found => ?_
    split
    · exact yields_refuse
    · refine yields_ite (yields_pure h) ((yields_classRange _ h).bind fun found hfound => ?_)
      exact yields_ite (yields_pure hfound) (ih hfound)

theorem isLeaf_classItem {items : List SetItem} (negated : Bool)
    (h : ∀ item ∈ items, item.Under flags) : (classItem flags negated items).IsLeaf flags := by
  unfold classItem
  split
  · exact ⟨_, rfl, rfl⟩
  · refine ⟨_, rfl, rfl, fun item hitem => h item ?_⟩
    simpa using hitem

theorem yields_charClass (flags : Flags) : Yields (Item.IsLeaf flags) (charClass flags) := by
  rw [charClass_eq]
  refine yields_bind fun negated => ?_
  have hentries : Yields (fun found => ∀ item ∈ found, item.Under flags) (classEntries flags) :=
    yields_bind fun r => yields_classItems _ (by simp)
  exact hentries.bind fun items hitems => yields_pure (isLeaf_classItem negated hitems)

theorem isLeaf_code (flags : Flags) (n : Nat) : (Item.code flags n).IsLeaf flags :=
  ⟨_, rfl, rfl⟩

/-- The item is a leaf, or refers to a group. -/
def Item.IsAtom (flags : Flags) (item : Item) : Prop :=
  ∃ e, item.parts = [e] ∧ (e.IsLeaf flags ∨ ∃ number, e = .same number flags.folding)

theorem Item.IsLeaf.isAtom {item : Item} (h : item.IsLeaf flags) : item.IsAtom flags := by
  obtain ⟨e, hparts, hleaf⟩ := h
  exact ⟨e, hparts, .inl hleaf⟩

theorem Item.IsAtom.isLeaf {item : Item} (h : item.IsAtom flags) (hfree : item.IsFree) :
    item.IsLeaf flags := by
  obtain ⟨e, hparts, hleaf | ⟨number, rfl⟩⟩ := h
  · exact ⟨e, hparts, hleaf⟩
  · simp [Item.IsFree, hparts, refersAny, Expr.refers] at hfree

theorem yields_backReference (flags : Flags) (number : Nat) :
    Yields (Item.IsAtom flags) (do return .ofExpr (← backReference flags number)) := by
  intro r x r₁ hrun
  obtain ⟨e, r₂, hread, hpure⟩ := run_bind_eq_ok.mp hrun
  obtain ⟨rfl, rfl⟩ := run_backReference_eq_ok hread
  cases hpure
  exact ⟨_, rfl, .inr ⟨number, rfl⟩⟩

theorem yields_digitEscape (flags : Flags) (c d : Char) (third : List Char) :
    Yields (Item.IsAtom flags) (digitEscape flags c d third) := by
  unfold digitEscape
  split
  · exact yields_ite yields_refuse_bind (yields_pure (isLeaf_code flags _).isAtom)
  · exact yields_backReference _ _

theorem yields_numberEscape (flags : Flags) (c : Char) :
    Yields (Item.IsAtom flags) (numberEscape flags c) := by
  unfold numberEscape
  refine yields_bind fun second => ?_
  split
  next d =>
    split
    · exact yields_bind (yields_digitEscape flags c d)
    · exact yields_bind (yields_digitEscape flags c d)
  next => exact yields_backReference _ _

theorem yields_escape (flags : Flags) (c : Char) :
    Yields (Item.IsAtom flags) (escape flags c) := by
  have hcode : ∀ n, (Item.code flags n).IsAtom flags := fun n => (isLeaf_code flags n).isAtom
  unfold escape
  split
  · exact yields_pure ⟨_, rfl, .inl trivial⟩
  split
  · exact yields_pure ⟨_, rfl, .inl ⟨rfl, by simp [SetItem.Under]⟩⟩
  split
  · exact yields_pure (hcode _)
  split
  · exact yields_bind fun _ => yields_pure (hcode _)
  split
  · exact yields_bind fun _ => yields_pure (hcode _)
  split
  · exact yields_numberEscape _ _
  · exact yields_ite yields_refuse_bind (yields_pure (hcode _))

theorem isLeaf_singleItem {item : Item} (h : item ∈ singleItem flags c) : item.IsLeaf flags := by
  unfold singleItem at h
  split at h
  · cases h
  split at h
  · cases h
    exact ⟨_, rfl, trivial⟩
  split at h
  · cases h
    exact ⟨_, rfl, trivial⟩
  split at h
  · cases h
    exact ⟨_, rfl, trivial⟩
  · cases h
    exact isLeaf_code flags _

/-! ## Parts without references -/

theorem refers_sequence (parts : List Expr) :
    (Expr.sequence parts).refers = refersAny parts :=
  Expr.isTally_refers.sequence parts

theorem refersAny_joined (folding : Folding) (found : List (List Expr)) :
    refersAny (Expr.joined folding found) = found.any refersAny :=
  Expr.isTally_refers.joined folding found

/-- Whatever is read behind them, the items of a sequence are part of it. -/
def Task.FreeItems : (task : Task) → task.Out → Prop
  | .sequence _ _ items, parts => refersAny parts = false → ∀ item ∈ items, item.IsFree
  | _, _ => True

theorem free_of_free_cons {item : Item} {items : List Item} {parts : List Expr}
    (h : refersAny parts = false → ∀ i ∈ item :: items, i.IsFree)
    (hfree : refersAny parts = false) : ∀ i ∈ items, i.IsFree :=
  (List.forall_mem_cons.mp (h hfree)).2

/-- A sequence without references is made of items without references. -/
theorem Reads.freeItems {task : Task} {r r₁ : Reading} {x : task.Out} (h : Reads task r x r₁) :
    task.FreeItems x := by
  induction h with
  | done hnext =>
    intro hfree item hitem
    simp only [refersAny, List.any_eq_false, List.mem_flatMap, List.mem_reverse] at hfree
    simp only [Item.IsFree, refersAny, List.any_eq_false]
    exact fun e he => hfree e ⟨item, hitem, he⟩
  | remark htake hverbose hskip h ih => exact ih
  | escape htake hitem h ih => exact free_of_free_cons ih
  | charClass htake hitem h ih => exact free_of_free_cons ih
  | brace htake hcounts h ih => exact free_of_free_cons ih
  | loop htake hc hcounts hlast hmode h ih =>
    intro hfree
    obtain ⟨hloop, hitems⟩ := List.forall_mem_cons.mp (ih hfree)
    refine List.forall_mem_cons.mpr ⟨?_, hitems⟩
    simpa [Item.IsFree, loopItem, refersAny, Expr.refers, refers_sequence] using hloop
  | single htake hc hsign h ih =>
    exact fun hfree item hitem => ih hfree item (List.mem_append_right _ hitem)
  | group htake hopen h ihopen ih =>
    exact fun hfree item hitem => ih hfree item (List.mem_append_right _ hitem)
  | _ => trivial

end Reader

end StepTrace.Regex
