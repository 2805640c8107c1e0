import StepTrace.Proofs.Regex.Captures
import StepTrace.Proofs.Regex.Congruence
import StepTrace.Proofs.Regex.Runs

/-!
# Reading a pattern without its captures

The reader reads a pattern and the same pattern with its groups made non-capturing side by side:
whatever it reads of the one it reads of the other (`Reads.accompanied`), with a result that differs
in the groups alone.  What it means to differ in the groups alone is left open; it may be any
relation between parts that the ways of building patterns preserve (`Congruence`).

Groups stay capturing where the rewriting misses them.  So the state that is read beside has as many
groups as a scan has counted missed openings.

The pattern must not refer to groups, and no parenthesis may stand in a class.
-/

namespace StepTrace.Regex

open Manifest

/-- Tokens between two texts are unique. -/
theorem Spans.unique {ts us : List Token} {s s₁ : List Char} (h : Spans ts s s₁)
    (h' : Spans us s s₁) : ts = us := by
  induction ts generalizing s us with
  | nil =>
    have hlength := h'.length_le
    have heq : s = s₁ := h.eq
    rw [heq] at hlength
    exact (List.length_eq_zero_iff.mp (by omega)).symm
  | cons t ts ih =>
    cases us with
    | nil =>
      have hlength := h.length_le
      have heq : s = s₁ := h'.eq
      rw [heq, List.length_cons] at hlength
      omega
    | cons u us =>
      have hnext := h.nextToken?.symm.trans h'.nextToken?
      obtain ⟨rfl, hrest⟩ : t = u ∧ written ts ++ s₁ = written us ++ s₁ := by simpa using hnext
      have htail := h'.tail
      rw [← hrest] at htail
      rw [ih h.tail htail]

namespace Reader

/-! ## Two states side by side -/

/-- The states differ in their text, in the groups, and in that the second knows fewer names. -/
structure Fellow (r r' : Reading) : Prop where
  flags : r'.flags = r.flags
  names : ∀ name, r.names.lookup name = none → r'.names.lookup name = none
  behind : r'.behind.isNone = r.behind.isNone
  conditions : r'.conditions = []
  unfixed : r'.unfixed = r.unfixed

/-- The second state has the text of the first without its captures. -/
structure Twin (escaped : Bool) (r r' : Reading) : Prop where
  fellow : Fellow r r'
  rest : r'.rest = converted escaped r.rest

/-- The scan is where reading under the flags begins, and will come to no parenthesis in a class; it
will come to no flags either, unless all flags have the property. -/
structure Leads (P : Flags → Prop) (σ : Scan) (flags : Flags) (outer : List Bool) (k : Nat)
    (r : Reading) : Prop where
  has : σ.Has flags.verbose outer (k + r.widths.size)
  fits : P flags
  classParens : (σ.past r.rest).classParens = 0
  flagged : (∀ f, P f) ∨ (σ.past r.rest).flagged = 0

/-- From the first states, at the first scan, to the last ones: the states are twins again, and the
second has got as many groups as the scan has counted missed openings. -/
structure Reaches (P : Flags → Prop) (σ σ₁ : Scan) (r r' r₁ r₁' : Reading) : Prop where
  twin : Twin σ₁.slashed r₁ r₁'
  groups : r₁'.widths.size + σ.missed = r'.widths.size + σ₁.missed
  flags : (∀ f, P f) ∨ r₁.flags = r.flags

/-- The items are of one kind, with parts that are alike. -/
structure AlikeItem (R : List Expr → List Expr → Prop) (item item' : Item) : Prop where
  kind : item'.kind = item.kind
  parts : R item.parts item'.parts

/-- Wherever a scan leads from the first state, what is read from there is also read from the state
beside it, with a result that is alike. -/
def Accompanied {β : Type} (P : Flags → Prop) (flags : Flags)
    (beside : Scan → Reading → Prop) (r r₁ : Reading) (reads : Reading → β → Reading → Prop)
    (alike : β → Prop) : Prop :=
  ∀ (σ : Scan) (r' : Reading) outer k ts, beside σ r' → Leads P σ flags outer k r →
    Spans ts r.rest r₁.rest →
      ∃ x' r₁', reads r' x' r₁' ∧ Reaches P σ (σ.after ts) r r' r₁ r₁' ∧ alike x'

/-- The scan stands where an item may begin, beside twins. -/
def BesideItem (r : Reading) (σ : Scan) (r' : Reading) : Prop :=
  σ.AtItem r.rest ∧ Twin σ.slashed r r'

/-- The scan stands behind an opening parenthesis, which has been read on both sides. -/
structure BesideParenthesis (r : Reading) (σ : Scan) (r' : Reading) : Prop where
  place : σ.place = .opened
  slashed : σ.slashed = false
  fellow : Fellow r r'
  rest : '(' :: r'.rest = converted σ.guarded ('(' :: r.rest)

/-- What is read for the task can be read beside it, unless it refers to groups. -/
def Task.Accompanied (P : Flags → Prop) (R : List Expr → List Expr → Prop) :
    (task : Task) → Reading → task.Out → Reading → Prop
  | .alternatives scope first, r, x, r₁ => (scope.isSome → first = false) → refersAny x = false →
    Reader.Accompanied P (scope.getD r.flags) (BesideItem r) r r₁
      (Reads (.alternatives scope first)) (R x)
  | .branches scope first, r, x, r₁ => (scope.isSome → first = false) →
    (∀ parts ∈ x, refersAny parts = false) →
    Reader.Accompanied P (scope.getD r.flags) (BesideItem r) r r₁
      (Reads (.branches scope first)) (List.Forall₂ R x)
  | .sequence scope first items, r, x, r₁ => (scope.isSome → first = false) →
    refersAny x = false → ∀ items', List.Forall₂ (AlikeItem R) items items' →
    Reader.Accompanied P (scope.getD r.flags) (BesideItem r) r r₁
      (Reads (.sequence scope first items')) (R x)
  | .parenthesis flags flagsAllowed, r, x, r₁ => (∀ item ∈ x, item.IsFree) →
    Reader.Accompanied P flags (BesideParenthesis r) r r₁
      (Reads (.parenthesis flags flagsAllowed)) (Option.Rel (AlikeItem R) x)
  | .enclosed flags, r, x, r₁ => refersAny x = false →
    Reader.Accompanied P flags (BesideItem r) r r₁ (Reads (.enclosed flags)) (R x)

variable {P : Flags → Prop} {R : List Expr → List Expr → Prop} {scope : Option Flags}
  {flags : Flags} {first flagsAllowed : Bool} {items items' : List Item} {parts : List Expr}
  {r r' r₁ r₁' r₂ r₂' r₃ : Reading} {σ : Scan} {outer : List Bool} {k : Nat} {ts us : List Token}
  {s s₁ : List Char}

/-! ## Passing over tokens -/

theorem Fellow.goOn (h : Fellow r r') (s s' : List Char) :
    Fellow { r with rest := s } { r' with rest := s' } :=
  ⟨h.flags, h.names, h.behind, h.conditions, h.unfixed⟩

theorem Fellow.regroup (h : Fellow r r') (widths widths' : Array (Option Width)) :
    Fellow { r with widths } { r' with widths := widths' } :=
  ⟨h.flags, h.names, h.behind, h.conditions, h.unfixed⟩

theorem Fellow.goOn_left (h : Fellow r r') (hr₁ : r₁ = { r with rest := r₁.rest }) (s' : List Char) :
    Fellow r₁ { r' with rest := s' } := by
  rw [hr₁]
  exact h.goOn _ s'

/-- Tokens that are no opening parentheses stand in the text beside, too. -/
theorem Twin.pass (h : Twin σ.slashed r r') (hspans : Spans ts r.rest r₁.rest)
    (hr₁ : r₁ = { r with rest := r₁.rest }) (hparen : .plain '(' ∉ ts) :
    r'.rest = written ts ++ converted (σ.after ts).slashed r₁.rest ∧
      Twin (σ.after ts).slashed r₁ { r' with rest := converted (σ.after ts).slashed r₁.rest } := by
  refine ⟨?_, h.fellow.goOn_left hr₁ _, rfl⟩
  rw [h.rest, hspans.eq, converted_written hspans.tokens hparen, Scan.slashed_after]

theorem Leads.pass (h : Leads P σ flags outer k r) (hspans : Spans ts r.rest r₁.rest)
    (hr₁ : r₁ = { r with rest := r₁.rest }) (hkeeps : σ.Keeps s (σ.after ts)) :
    Leads P (σ.after ts) flags outer k r₁ := by
  have hpast := Scan.past_spans h.has.pending hspans
  refine ⟨?_, h.fits, hpast ▸ h.classParens, hpast ▸ h.flagged⟩
  have hwidths : r₁.widths = r.widths := by rw [hr₁]
  rw [hwidths]
  exact hkeeps.has h.has

theorem Reaches.refl (h : Twin σ.slashed r r') : Reaches P σ σ r r' r r' :=
  ⟨h, rfl, .inr rfl⟩

theorem Reaches.trans {σ₁ σ₂ : Scan} {r₁' r₂' : Reading} (h : Reaches P σ σ₁ r r' r₁ r₁')
    (h' : Reaches P σ₁ σ₂ r₁ r₁' r₂ r₂') : Reaches P σ σ₂ r r' r₂ r₂' := by
  refine ⟨h'.twin, ?_, ?_⟩
  · have := h.groups
    have := h'.groups
    omega
  · refine h.flags.elim .inl fun hflags => h'.flags.imp_right fun hflags' => ?_
    exact hflags'.trans hflags

/-! ## Sequences -/

/-- The text beside goes on behind tokens that keep the scan where it was. -/
def restBeside (σ : Scan) (ts : List Token) (r : Reading) : List Char :=
  converted (σ.after ts).slashed r.rest

theorem Reaches.of_keeps (htwin : Twin σ.slashed r r') (hr₁ : r₁ = { r with rest := r₁.rest })
    (hkeeps : σ.Keeps s (σ.after ts)) :
    Reaches P σ (σ.after ts) r r' r₁ { r' with rest := restBeside σ ts r₁ } :=
  ⟨⟨htwin.fellow.goOn_left hr₁ _, rfl⟩, by rw [hkeeps.missed], .inr (by rw [hr₁])⟩

/-- An item, and what is read behind it. -/
theorem accompanied_cons {newItems : List Item} {alike : List Expr → Prop}
    (hspans : Spans ts r.rest r₁.rest) (hne : r.rest ≠ []) (hr₁ : r₁ = { r with rest := r₁.rest })
    (hscan : ∀ σ : Scan, σ.place = .item → σ.verbose = (scope.getD r.flags).verbose →
      σ.Keeps r₁.rest (σ.after ts))
    (hread : ∀ σ r' outer k, σ.place = .item → Leads P σ (scope.getD r.flags) outer k r →
      Twin σ.slashed r r' → ∃ newItems', List.Forall₂ (AlikeItem R) newItems newItems' ∧
        ∀ {x' r₂'}, Reads (.sequence scope first newItems')
            { r' with rest := restBeside σ ts r₁ } x' r₂' →
          Reads (.sequence scope first items') r' x' r₂')
    (hrest : ∃ us, Spans us r₁.rest r₂.rest)
    (h : ∀ newItems', List.Forall₂ (AlikeItem R) newItems newItems' →
      Accompanied P (scope.getD r₁.flags) (BesideItem r₁) r₁ r₂
        (Reads (.sequence scope first newItems')) alike) :
    Accompanied P (scope.getD r.flags) (BesideItem r) r r₂
      (Reads (.sequence scope first items')) alike := by
  intro σ r' outer k ts' ⟨hitem, htwin⟩ hleads hts'
  have hplace := hitem.place hne
  have hkeeps := hscan σ hplace hleads.has.verbose
  obtain ⟨us, hus⟩ := hrest
  obtain rfl := hts'.unique (hspans.append hus)
  obtain ⟨newItems', hnew, hreads⟩ := hread σ r' outer k hplace hleads htwin
  have hreaches : Reaches P σ (σ.after ts) r r' r₁ _ := .of_keeps htwin hr₁ hkeeps
  have hflags : r₁.flags = r.flags := by rw [hr₁]
  obtain ⟨x', r₂', hx', hreaches', halike⟩ := h newItems' hnew (σ.after ts) _ outer k us
    ⟨hkeeps.item, hreaches.twin⟩ (hflags ▸ hleads.pass hspans hr₁ hkeeps) hus
  rw [Scan.after_append]
  exact ⟨x', r₂', hreads hx', hreaches.trans hreaches', halike⟩

/-- An item that is read from its text alone, and what is read behind it. -/
theorem accompanied_item {α : Type} {f : Reader α} {y : α} {t : Token} {newItems : List Item}
    {alike : List Expr → Prop} (hr : r.rest ≠ ['\\']) (htake : Takes t r r₁)
    (hspans : Spans us r₁.rest r₂.rest) (hr₂ : r₂ = { r₁ with rest := r₂.rest })
    (hscan : ∀ σ : Scan, σ.place = .item → σ.verbose = (scope.getD r.flags).verbose →
      σ.Keeps r₂.rest (σ.after (t :: us)))
    (hparen : ∀ σ : Scan, σ.place = .item → σ.pending = false →
      (σ.past r.rest).classParens = 0 → .plain '(' ∉ t :: us)
    (hagain : ∀ (r' : Reading) s', r'.rest = written us ++ s' → Alongside r₂.rest s' →
      f.run r' = .ok (y, { r' with rest := s' }))
    (hreads : ∀ {r' r₁' r₂'}, P (scope.getD r.flags) → r'.flags = r.flags → Takes t r' r₁' →
      f.run r₁' = .ok (y, r₂') → ∃ newItems', List.Forall₂ (AlikeItem R) newItems newItems' ∧
        ∀ {x' r₃'}, Reads (.sequence scope first newItems') r₂' x' r₃' →
          Reads (.sequence scope first items') r' x' r₃')
    (hrest : ∃ us, Spans us r₂.rest r₃.rest)
    (h : ∀ newItems', List.Forall₂ (AlikeItem R) newItems newItems' →
      Accompanied P (scope.getD r₂.flags) (BesideItem r₂) r₂ r₃
        (Reads (.sequence scope first newItems')) alike) :
    Accompanied P (scope.getD r.flags) (BesideItem r) r r₃
      (Reads (.sequence scope first items')) alike := by
  have hspans' : Spans (t :: us) r.rest r₂.rest := (htake.spans hr).append hspans
  have hr₂' : r₂ = { r with rest := r₂.rest } := by rw [hr₂, htake.eq]
  refine accompanied_cons hspans' htake.ne_nil hr₂' hscan
    (fun σ r' outer k hplace hleads htwin => ?_) hrest h
  obtain ⟨htext, -⟩ := htwin.pass hspans' hr₂'
    (hparen σ hplace hleads.has.pending hleads.classParens)
  have halong := alongside_converted (σ.after (t :: us)).slashed r₂.rest
  have hsame := sameToken_converted (σ.after (t :: us)).slashed r₂.rest
  rw [written_cons, List.append_assoc] at htext
  have htake' : Takes t r' { r' with rest := written us ++ restBeside σ (t :: us) r₂ } :=
    takes_of (hspans'.tokens t (by simp))
      (Spans.ne_lone ⟨rfl, hspans.tokens, hsame.ne_lone hspans.left⟩) htext
  exact hreads hleads.fits htwin.fellow.flags htake' (hagain _ _ rfl halong)

theorem alikeItem_of_isLeaf (hR : Congruence P R) (hP : P flags) {item : Item}
    (h : item.IsLeaf flags) : AlikeItem R item item := by
  obtain ⟨e, hparts, hleaf⟩ := h
  exact ⟨rfl, hparts ▸ hR.leaf hP hleaf⟩

theorem not_mem_paren_of_isHarmless {t : Token} (ht : t ≠ .plain '(')
    (hts : ∀ t ∈ ts, t.IsHarmless) : .plain '(' ∉ t :: ts := by
  rw [List.mem_cons, not_or]
  refine ⟨Ne.symm ht, fun hmem => ?_⟩
  obtain ⟨c, heq, hc⟩ := hts _ hmem
  cases heq
  simp at hc

theorem Alongside.sameToken {s s' : List Char} (h : Alongside s s') (hs : s ≠ ['\\']) :
    SameToken s s' := by
  obtain ⟨s₁, rfl, hsame⟩ := h [] s (.nil hs) (by simp)
  exact hsame

section Items

variable {alike : List Expr → Prop}

theorem accompanied_escape (hR : Congruence P R) (hr : r.rest ≠ ['\\']) {c : Char} {item : Item}
    (hitems : List.Forall₂ (AlikeItem R) items items') (htake : Takes (.escaped c) r r₁)
    (hitem : (escape (scope.getD r.flags) c).run r₁ = .ok (item, r₂)) (hfree : item.IsFree)
    (hrest : ∃ us, Spans us r₂.rest r₃.rest)
    (h : ∀ newItems', List.Forall₂ (AlikeItem R) (item :: items) newItems' →
      Accompanied P (scope.getD r₂.flags) (BesideItem r₂) r₂ r₃
        (Reads (.sequence scope first newItems')) alike) :
    Accompanied P (scope.getD r.flags) (BesideItem r) r r₃
      (Reads (.sequence scope first items')) alike := by
  obtain ⟨ts, hspans, hts, hr₂, hagain⟩ := textual_escape _ _ (htake.spans hr).left hitem
  refine accompanied_item hr htake hspans hr₂
    (fun σ hplace _ => Scan.keeps_items hplace (by simp) (by simp) hts)
    (fun _ _ _ _ => not_mem_paren_of_isHarmless (by simp) hts)
    (fun r' s' hs' halong => hagain hfree r' s' hs' (halong.sameToken hspans.left))
    (fun hP hflags htake' hitem' => ⟨_, .cons (alikeItem_of_isLeaf hR hP ?_) hitems,
      fun hreads => .escape htake' (hflags ▸ hitem') hreads⟩) hrest h
  exact (yields_escape _ _ hitem).isLeaf hfree

/-- A class without an opening parenthesis. -/
theorem not_mem_paren_of_class (hplace : σ.place = .item) (hpending : σ.pending = false)
    (hspans : Spans (.plain '[' :: ts) s s₁) (hclass : IsClass ts)
    (hparens : (σ.past s).classParens = 0) : .plain '(' ∉ Token.plain '[' :: ts := by
  have hgrows := Scan.grows_past (σ.after (.plain '[' :: ts)) s₁
  rw [← Scan.past_spans hpending hspans] at hgrows
  have hafter : (σ.after (.plain '[' :: ts)).classParens =
      σ.classParens + ts.count (.plain '(') := by rw [Scan.after_class hplace hclass]
  have hcount : ts.count (.plain '(') = 0 := by
    have := hgrows.classParens
    omega
  simpa using List.count_eq_zero.mp hcount

theorem accompanied_charClass (hR : Congruence P R) (hr : r.rest ≠ ['\\']) {item : Item}
    (hitems : List.Forall₂ (AlikeItem R) items items') (htake : Takes (.plain '[') r r₁)
    (hitem : (charClass (scope.getD r.flags)).run r₁ = .ok (item, r₂))
    (hrest : ∃ us, Spans us r₂.rest r₃.rest)
    (h : ∀ newItems', List.Forall₂ (AlikeItem R) (item :: items) newItems' →
      Accompanied P (scope.getD r₂.flags) (BesideItem r₂) r₂ r₃
        (Reads (.sequence scope first newItems')) alike) :
    Accompanied P (scope.getD r.flags) (BesideItem r) r r₃
      (Reads (.sequence scope first items')) alike := by
  obtain ⟨ts, hspans, hclass, hr₂, -, hagain⟩ := run_charClass (htake.spans hr).left hitem
  refine accompanied_item hr htake hspans hr₂
    (fun σ hplace _ => Scan.keeps_class hplace hclass)
    (fun σ hplace hpending hparens => not_mem_paren_of_class hplace hpending
      ((htake.spans hr).append hspans) hclass hparens)
    (fun r' s' hs' halong => hagain r' s' hs' (halong.sameToken hspans.left))
    (fun hP hflags htake' hitem' => ⟨_, .cons (alikeItem_of_isLeaf hR hP ?_) hitems,
      fun hreads => .charClass htake' (hflags ▸ hitem') hreads⟩) hrest h
  exact yields_charClass _ hitem

theorem accompanied_brace (hR : Congruence P R) (hr : r.rest ≠ ['\\'])
    (hitems : List.Forall₂ (AlikeItem R) items items') (htake : Takes (.plain '{') r r₁)
    (hcounts : bracedCounts?.run r₁ = .ok (none, r₂)) (hrest : ∃ us, Spans us r₂.rest r₃.rest)
    (h : ∀ newItems',
      List.Forall₂ (AlikeItem R) (.code (scope.getD r.flags) '{'.toNat :: items) newItems' →
      Accompanied P (scope.getD r₂.flags) (BesideItem r₂) r₂ r₃
        (Reads (.sequence scope first newItems')) alike) :
    Accompanied P (scope.getD r.flags) (BesideItem r) r r₃
      (Reads (.sequence scope first items')) alike := by
  have hleft := (htake.spans hr).left
  obtain rfl : r₂ = r₁ := by
    obtain ⟨-, -, rfl⟩ | ⟨-, low, high, closed, r', htext, hend⟩ :=
      run_bracedCounts?_eq_ok.mp hcounts
    · rfl
    · obtain ⟨ts, -, -, hr', -⟩ := run_bracedText_again hleft htext
      cases closed with
      | false =>
        obtain ⟨-, rfl⟩ := hend
        rw [hr']
      | true =>
        obtain ⟨least, most, hsome, -⟩ := run_countsOf_eq_ok hend
        cases hsome
  refine accompanied_item hr htake (.nil hleft) rfl
    (fun σ hplace _ => Scan.keeps_items hplace (by simp) (by simp) (by simp))
    (fun _ _ _ _ => by simp)
    (fun r' s' hs' halong => ?_)
    (fun hP hflags htake' hcounts' =>
      ⟨_, .cons (alikeItem_of_isLeaf hR hP (isLeaf_code _ _)) hitems,
        fun hreads => .brace htake' hcounts' (hflags ▸ hreads)⟩) hrest h
  obtain rfl : r'.rest = s' := hs'
  exact run_bracedCounts?_none hleft hcounts halong

theorem accompanied_single (hR : Congruence P R) (hr : r.rest ≠ ['\\']) {c : Char}
    (hitems : List.Forall₂ (AlikeItem R) items items') (htake : Takes (.plain c) r r₁)
    (hc : c ∉ sequenceSigns) (hsign : c = '#' → (scope.getD r.flags).verbose = false)
    (hrest : ∃ us, Spans us r₁.rest r₃.rest)
    (h : ∀ newItems', List.Forall₂ (AlikeItem R)
        ((singleItem (scope.getD r.flags) c).toList ++ items) newItems' →
      Accompanied P (scope.getD r₁.flags) (BesideItem r₁) r₁ r₃
        (Reads (.sequence scope first newItems')) alike) :
    Accompanied P (scope.getD r.flags) (BesideItem r) r r₃
      (Reads (.sequence scope first items')) alike := by
  have hsigns := hc
  simp only [List.mem_cons, List.not_mem_nil, or_false, not_or] at hsigns
  refine accompanied_item (f := pure ()) (y := ()) hr htake (.nil (htake.spans hr).left) rfl
    (fun σ hplace hverbose => Scan.keeps_items hplace (by simp [hsigns])
      (fun heq => hverbose.trans (hsign (Token.plain.inj heq))) (by simp))
    (fun _ _ _ _ => by simp [Ne.symm hsigns.2.2.2.2.2.2.2])
    (fun r' s' hs' _ => ?_)
    (fun {r' r₁' r₂'} hP hflags htake' hpure =>
      ⟨(singleItem (scope.getD r.flags) c).toList ++ items', ?_, fun hreads => ?_⟩) hrest h
  · obtain rfl : r'.rest = s' := hs'
    rfl
  · cases hsingle : singleItem (scope.getD r.flags) c with
    | none => exact hitems
    | some item => exact .cons (alikeItem_of_isLeaf hR hP (isLeaf_singleItem hsingle)) hitems
  · cases hpure
    exact .single htake' hc (fun heq => hflags.symm ▸ hsign heq) (hflags.symm ▸ hreads)

/-- Text that is passed over up to a sign is passed over without its captures, too. -/
theorem run_skipPast_converted {stop : Char} {openEnded : Bool}
    (hstop : stop ∉ ['(', '?', ':', 'P', '<', '>', '\\']) (hword : Text.isWord stop = false)
    (hts : .plain stop ∉ ts) (hspans : Spans (ts ++ us) s s₁)
    (hend : us = [.plain stop] ∨ openEnded = true ∧ us = [] ∧ s₁ = [])
    {escaped : Bool} (hrest : r'.rest = converted escaped s) :
    r'.rest ≠ ['\\'] ∧ (skipPast stop openEnded (r'.rest.length + 1)).run r' =
      .ok ((), { r' with rest := converted (endsSlashed escaped (ts ++ us)) s₁ }) := by
  have hplain : ∀ t ∈ ts, t ≠ .plain '\\' ∧ t ≠ .plain stop := fun t ht =>
    ⟨hspans.tokens t (List.mem_append_left _ ht), fun heq => hts (heq ▸ ht)⟩
  have htext : s = written ts ++ (written us ++ s₁) := by
    rw [hspans.eq, written_append, List.append_assoc]
  have hhead : ∀ d ∈ (written us ++ s₁).head?, d = stop := by
    obtain rfl | ⟨-, rfl, rfl⟩ := hend
    · simp [Token.chars]
    · simp
  obtain ⟨vs, escaped', hvs, hnot⟩ := exists_converted_passed hstop hword hhead hplain escaped
  have htail : converted escaped' (written us ++ s₁) =
      written us ++ converted (endsSlashed escaped (ts ++ us)) s₁ := by
    obtain rfl | ⟨-, rfl, rfl⟩ := hend
    · have hne : stop ≠ '(' := fun h => hstop (by simp [h])
      have hslash : (stop == '\\') = false := by
        simpa using fun h => hstop (by simp [h])
      have heq : converted escaped' (stop :: s₁) = _ := converted_cons (.inl hne)
      rw [hslash] at heq
      rw [endsSlashed_concat]
      exact heq
    · simp
  have htext' : r'.rest = written (vs ++ us) ++ converted (endsSlashed escaped (ts ++ us)) s₁ := by
    rw [hrest, htext, hvs, htail, written_append, List.append_assoc]
  have hspans' : Spans (vs ++ us) r'.rest (converted (endsSlashed escaped (ts ++ us)) s₁) := by
    refine ⟨htext', fun t ht => ?_, (sameToken_converted _ _).ne_lone hspans.left⟩
    obtain ht | ht := List.mem_append.mp ht
    · exact (hnot t ht).1
    · exact hspans.tokens t (List.mem_append_right _ ht)
  have hvs : .plain stop ∉ vs := fun h => (hnot _ h).2 rfl
  refine ⟨hspans'.ne_lone, run_skipPast_of hvs ?_ ?_⟩
  · have := hspans'.length_le
    rw [List.length_append] at this
    omega
  · obtain rfl | ⟨hopen, rfl, rfl⟩ := hend
    · exact .inl hspans'
    · exact .inr ⟨hopen, by simpa using hspans', by simp⟩

theorem accompanied_remark (hr : r.rest ≠ ['\\'])
    (hitems : List.Forall₂ (AlikeItem R) items items') (htake : Takes (.plain '#') r r₁)
    (hverbose : (scope.getD r.flags).verbose = true)
    (hskip : (skipPast '\n' true (r₁.rest.length + 1)).run r₁ = .ok ((), r₂))
    (hrest : ∃ us, Spans us r₂.rest r₃.rest)
    (h : ∀ newItems', List.Forall₂ (AlikeItem R) items newItems' →
      Accompanied P (scope.getD r₂.flags) (BesideItem r₂) r₂ r₃
        (Reads (.sequence scope first newItems')) alike) :
    Accompanied P (scope.getD r.flags) (BesideItem r) r r₃
      (Reads (.sequence scope first items')) alike := by
  obtain ⟨hr₂, ts, us, hts, hspans, hend⟩ := exists_remark (htake.spans hr).left hskip
  have hspans' : Spans (.plain '#' :: (ts ++ us)) r.rest r₂.rest := (htake.spans hr).append hspans
  refine accompanied_cons hspans' htake.ne_nil (by rw [hr₂, htake.eq])
    (fun σ hplace hσ => Scan.keeps_remark hplace (hσ.trans hverbose) hts hend)
    (fun σ r' outer k hplace hleads htwin => ⟨items', hitems, fun {x' r₂'} hreads => ?_⟩) hrest h
  have htext : r'.rest = '#' :: converted false r₁.rest := by
    rw [htwin.rest, (htake.spans hr).eq]
    exact converted_cons (.inl (by decide))
  let r₁' : Reading := { r' with rest := converted false r₁.rest }
  have hr₁' : r₁'.rest = converted false r₁.rest := rfl
  have hend' : us = [.plain '\n'] ∨ true = true ∧ us = [] ∧ r₂.rest = [] :=
    hend.imp_right fun hnil => ⟨rfl, hnil⟩
  obtain ⟨hleft, hrun⟩ := run_skipPast_converted (by decide) (by decide) hts hspans hend' hr₁'
  have htake' : Takes (.plain '#') r' r₁' := takes_of (by decide) hleft htext
  refine .remark htake' (htwin.fellow.flags.symm ▸ hverbose) hrun ?_
  rw [restBeside, Scan.slashed_after, endsSlashed_cons] at hreads
  exact hreads

theorem accompanied_loop (hR : Congruence P R) (hr : r.rest ≠ ['\\']) {c : Char} {last last' : Item}
    {least : Nat} {most : Option Nat} {mode : LoopMode} {r₄ : Reading}
    (hitems : List.Forall₂ (AlikeItem R) items items') (halike : AlikeItem R last last')
    (htake : Takes (.plain c) r r₁) (hc : c ∈ ['?', '*', '+', '{'])
    (hcounts : (counts? c).run r₁ = .ok (some (least, most), r₂)) (hlast : last.kind = .repeatable)
    (hmode : loopMode.run r₂ = .ok (mode, r₃)) (hrest : ∃ us, Spans us r₃.rest r₄.rest)
    (h : ∀ newItems', List.Forall₂ (AlikeItem R) (loopItem mode least most last :: items) newItems' →
      Accompanied P (scope.getD r₃.flags) (BesideItem r₃) r₃ r₄
        (Reads (.sequence scope first newItems')) alike) :
    Accompanied P (scope.getD r.flags) (BesideItem r) r r₄
      (Reads (.sequence scope first (last' :: items'))) alike := by
  obtain ⟨ts, hspans, hts, hr₂, hagain⟩ := textual_counts? _ (htake.spans hr).left hcounts
  obtain ⟨us, hspans', hus, hr₃, hagain'⟩ := textual_loopMode hspans.left hmode
  have hsigns := not_mem_signs_of_mem_loopSigns hc
  have hharmless : ∀ t ∈ ts ++ us, t.IsHarmless := fun t ht =>
    (List.mem_append.mp ht).elim (hts t) (hus t)
  have hloop : AlikeItem R (loopItem mode least most last) (loopItem mode least most last') := by
    refine ⟨rfl, hR.loop (fun m hm => ?_) halike.parts⟩
    exact (run_counts?_eq_ok hcounts).2 least m (by rw [hm])
  refine accompanied_item (f := do return (← counts? c, ← loopMode)) (y := (some (least, most), mode))
    hr htake (hspans.append hspans') (by rw [hr₃, hr₂])
    (fun σ hplace _ => Scan.keeps_items hplace (by simp [hsigns]) (by simp [hsigns]) hharmless)
    (fun _ _ _ _ => not_mem_paren_of_isHarmless (by simp [hsigns]) hharmless)
    (fun r' s' hs' halong => ?_)
    (fun {r' r₁' r₂'} hP hflags htake' hboth =>
      ⟨loopItem mode least most last' :: items', .cons hloop hitems, fun hreads => ?_⟩) hrest h
  · have hsame := halong.sameToken hspans'.left
    have hmiddle := hsame.append hspans'.tokens
    rw [← hspans'.eq] at hmiddle
    rw [written_append, List.append_assoc] at hs'
    exact run_bind_eq_ok.mpr ⟨_, _, hagain rfl r' _ hs' hmiddle,
      run_bind_eq_ok.mpr ⟨_, _, hagain' trivial _ s' rfl hsame, rfl⟩⟩
  · obtain ⟨found, r₃', hcounts', hrest'⟩ := run_bind_eq_ok.mp hboth
    obtain ⟨mode', r₄', hmode', hpure⟩ := run_bind_eq_ok.mp hrest'
    cases hpure
    exact .loop htake' hc hcounts' (halike.kind.trans hlast) hmode' hreads

end Items

/-! ## Groups -/

/-- What an opening parenthesis stands before in the text beside. -/
theorem exists_converted_paren (escaped : Bool) (hs : s ≠ ['\\']) :
    ∃ s', converted escaped ('(' :: s) = '(' :: s' ∧ s' ≠ ['\\'] := by
  obtain heq | ⟨-, rest, heq, -⟩ := converted_paren escaped s
  · exact ⟨_, heq, (sameToken_converted _ _).ne_lone hs⟩
  · exact ⟨_, heq, by simp⟩

theorem accompanied_group {item : Option Item} {alike : List Expr → Prop}
    (hscope : scope.isSome → first = false) (hr : r.rest ≠ ['\\'])
    (hitems : List.Forall₂ (AlikeItem R) items items') (htake : Takes (.plain '(') r r₁)
    (hstep : OpensInStep (scope.getD r.flags) (first && items.isEmpty) r₁ r₂)
    (hopen : Accompanied P (scope.getD r.flags) (BesideParenthesis r₁) r₁ r₂
      (Reads (.parenthesis (scope.getD r.flags) (first && items.isEmpty)))
      (Option.Rel (AlikeItem R) item))
    (hrest : ∃ us, Spans us r₂.rest r₃.rest)
    (h : ∀ newItems', List.Forall₂ (AlikeItem R) (item.toList ++ items) newItems' →
      Accompanied P (scope.getD r₂.flags) (BesideItem r₂) r₂ r₃
        (Reads (.sequence scope first newItems')) alike) :
    Accompanied P (scope.getD r.flags) (BesideItem r) r r₃
      (Reads (.sequence scope first items')) alike := by
  intro σ r' outer k ts' ⟨hitem, htwin⟩ hleads hts'
  obtain ⟨ts, added, hspans, hadded, hallowed, hscan⟩ := hstep
  obtain ⟨us, hus⟩ := hrest
  have hspans' := (htake.spans hr).append hspans
  obtain rfl := hts'.unique (hspans'.append hus)
  have hflags : r₁.flags = r.flags := by rw [htake.eq]
  have hwidths : r₁.widths = r.widths := by rw [htake.eq]
  -- the parenthesis on both sides
  let σ₁ : Scan := { σ.moved .opened false with guarded := σ.slashed }
  have hσ₁ : σ.after [.plain '('] = σ₁ := Scan.next_paren (hitem.place htake.ne_nil)
  have hhas₁ : σ₁.Has (scope.getD r.flags).verbose outer (k + r₁.widths.size) :=
    ⟨rfl, hleads.has.verbose, hleads.has.outer, hwidths ▸ hleads.has.openings⟩
  have hpast := Scan.past_spans hleads.has.pending (htake.spans hr)
  rw [hσ₁] at hpast
  have hleads₁ : Leads P σ₁ (scope.getD r.flags) outer k r₁ :=
    ⟨hhas₁, hleads.fits, hpast ▸ hleads.classParens, hpast ▸ hleads.flagged⟩
  obtain ⟨s', hs', hleft⟩ := exists_converted_paren σ.slashed (htake.spans hr).left
  have htext : r'.rest = '(' :: s' := by
    rw [htwin.rest, (htake.spans hr).eq]
    exact hs'
  have htake' : Takes (.plain '(') r' { r' with rest := s' } := takes_of (by decide) hleft htext
  obtain ⟨item', r₂', hitem', hreaches, halike⟩ := hopen σ₁ { r' with rest := s' } outer k ts
    ⟨rfl, rfl, htwin.fellow.goOn_left htake.eq _, hs'.symm⟩ hleads₁ hspans
  -- what comes behind the group
  obtain ⟨hplace₂, hhas₂⟩ := hscan σ₁ outer k rfl hhas₁
  have hpast₂ := Scan.past_spans hhas₁.pending hspans
  rw [← hpast] at hpast₂
  rw [hflags] at hadded
  obtain ⟨hverbose, -⟩ := verbose_of_added hscope
    (fun hallowed => (Bool.and_eq_true_iff.mp hallowed).1) hadded hallowed
  have hleads₂ : Leads P (σ₁.after ts) (scope.getD r₂.flags) outer k r₂ := by
    refine ⟨hverbose ▸ hhas₂, ?_, hpast₂ ▸ hleads.classParens, hpast₂ ▸ hleads.flagged⟩
    obtain hall | hsame := hreaches.flags
    · exact hall _
    · rw [hsame, hflags]
      exact hleads.fits
  have hnew : List.Forall₂ (AlikeItem R) (item.toList ++ items) (item'.toList ++ items') := by
    cases halike with
    | none => exact hitems
    | some hitem => exact .cons hitem hitems
  obtain ⟨x', r₃', hx', hreaches', halike'⟩ := h _ hnew (σ₁.after ts) r₂' outer k us
    ⟨.inl hplace₂, hreaches.twin⟩ hleads₂ hus
  have hempty : items'.isEmpty = items.isEmpty := by
    cases hitems <;> rfl
  refine ⟨x', r₃', .group htake' ?_ hx', ?_, halike'⟩
  · have hsame : scope.getD r'.flags = scope.getD r.flags := by rw [htwin.fellow.flags]
    rw [hsame, hempty]
    exact hitem'
  · rw [Scan.after_append, Scan.after_append, hσ₁]
    have hfirst : Reaches P σ (σ₁.after ts) r r' r₂ r₂' :=
      ⟨hreaches.twin, hreaches.groups, hreaches.flags.imp_right fun hsame => hsame.trans hflags⟩
    exact hfirst.trans hreaches'

/-- What has been reached from behind the signs of a group has been reached from its opening. -/
theorem Reaches.before {σ₁ σ₂ : Scan} {r₁' r₂' : Reading} (h : Reaches P σ₁ σ₂ r₁ r₁' r₂ r₂')
    (hmissed : r₁'.widths.size + σ.missed = r'.widths.size + σ₁.missed)
    (hflags : r₁.flags = r.flags) : Reaches P σ σ₂ r r' r₂ r₂' := by
  refine ⟨h.twin, ?_, h.flags.imp_right fun hsame => hsame.trans hflags⟩
  have := h.groups
  omega

/-- The width of a group may be set on either side. -/
theorem Reaches.close {σ₁ : Scan} {r₁' : Reading} (h : Reaches P σ σ₁ r r' r₁ r₁')
    (widths : Array (Option Width)) {widths' : Array (Option Width)}
    (hsize : widths'.size = r₁'.widths.size) :
    Reaches P σ σ₁ r r' { r₁ with widths } { r₁' with widths := widths' } := by
  refine ⟨⟨h.twin.fellow.regroup _ _, h.twin.rest⟩, ?_, h.flags⟩
  have := h.groups
  dsimp only
  omega

theorem Leads.inside {inner : Flags} {around : List Bool} (h : Leads P σ flags outer k r)
    {σ₁ : Scan} (hpast : σ₁.past r₁.rest = σ.past r.rest)
    (hhas : σ₁.Has inner.verbose around (k + r₁.widths.size)) (hfits : P inner) :
    Leads P σ₁ inner around k r₁ :=
  ⟨hhas, hfits, hpast ▸ h.classParens, hpast ▸ h.flagged⟩

/-- The inside of a group is read beside, too. -/
def InsideBeside (P : Flags → Prop) (R : List Expr → List Expr → Prop) (flags : Flags)
    (parts : List Expr) (σ₁ σ₂ : Scan) (r₁ r₁' r₂ : Reading) : Prop :=
  ∃ parts' r₂', Reads (.enclosed flags) r₁' parts' r₂' ∧ Reaches P σ₁ σ₂ r₁ r₁' r₂ r₂' ∧
    R parts parts'

/-- What is inside a group can be read beside behind the signs that begin it. -/
theorem Accompanied.of_signs {β : Type} {reads : Reading → β → Reading → Prop} {alike : β → Prop}
    {inner : Flags} {around : List Bool} {signs : List Token}
    (h : Accompanied P inner (BesideItem r₁) r₁ r₂ reads alike)
    (hsigns : Spans signs r.rest r₁.rest) (hrest : ∃ us, Spans us r₁.rest r₂.rest)
    (hts : Spans ts r.rest r₂.rest) (hleads : Leads P σ flags outer k r)
    (hplace : (σ.after signs).place = .item)
    (hhas : (σ.after signs).Has inner.verbose around (k + r₁.widths.size)) (hfits : P inner)
    (htwin : Twin (σ.after signs).slashed r₁ r₁') :
    ∃ x' r₂', reads r₁' x' r₂' ∧ Reaches P (σ.after signs) (σ.after ts) r₁ r₁' r₂ r₂' ∧ alike x' := by
  obtain ⟨us, hus⟩ := hrest
  obtain rfl := hts.unique (hsigns.append hus)
  have hpast := Scan.past_spans hleads.has.pending hsigns
  rw [Scan.after_append]
  exact h (σ.after signs) r₁' around k us ⟨.inl hplace, htwin⟩
    (hleads.inside hpast.symm hhas hfits) hus

/-- What an opening parenthesis begins is read beside, too. -/
def OpenedBeside (P : Flags → Prop) (R : List Expr → List Expr → Prop) (flags : Flags)
    (flagsAllowed : Bool) (x : Option Item) (σ σ₂ : Scan) (r r' r₃ : Reading) : Prop :=
  ∃ x' r₃', Reads (.parenthesis flags flagsAllowed) r' x' r₃' ∧ Reaches P σ σ₂ r r' r₃ r₃' ∧
    Option.Rel (AlikeItem R) x x'

/-- A group that is missed stays capturing. -/
theorem openedBeside_kept (hR : Congruence P R) {σ₁ σ₂ : Scan} {r₁' : Reading}
    {number number' : Nat} {widths : Array (Option Width)}
    (h : InsideBeside P R flags parts σ₁ σ₂ r₁ r₁' r₂) (hflags : r₁.flags = r.flags)
    (hmissed : σ₁.missed = σ.missed + 1) (hsize : r₁'.widths.size = r'.widths.size + 1)
    (hreads : ∀ {parts' r₂' r₃'}, Reads (.enclosed flags) r₁' parts' r₂' →
      (closeGroup number' (.sequence parts')).run r₂' = .ok ((), r₃') →
      Reads (.parenthesis flags flagsAllowed) r'
        (some (.ofExpr (.group number' (.sequence parts')))) r₃') :
    OpenedBeside P R flags flagsAllowed (some (.ofExpr (.group number (.sequence parts)))) σ σ₂ r r'
      { r₂ with widths } := by
  obtain ⟨parts', r₂', hparts', hreaches, halike⟩ := h
  exact ⟨_, _, hreads hparts' rfl,
    (hreaches.before (by omega) hflags).close widths Array.size_setIfInBounds, .some ⟨rfl, hR.kept halike⟩⟩

/-- Another group gets the signs of one that captures nothing. -/
theorem openedBeside_dropped (hR : Congruence P R) {σ₁ σ₂ : Scan} {s : List Char}
    {number : Nat} {widths : Array (Option Width)} (hs : s ≠ ['\\'])
    (hrest : r'.rest = '?' :: ':' :: s)
    (h : InsideBeside P R flags parts σ₁ σ₂ r₁ { r' with rest := s } r₂)
    (hflags : r₁.flags = r.flags) (hmissed : σ₁.missed = σ.missed) :
    OpenedBeside P R flags flagsAllowed (some (.ofExpr (.group number (.sequence parts)))) σ σ₂ r r'
      { r₂ with widths } := by
  obtain ⟨parts', r₂', hparts', hreaches, halike⟩ := h
  have hsign : Takes (.plain '?') r' { r' with rest := ':' :: s } :=
    takes_of (by decide) (by simp) hrest
  have hcolon : Takes (.plain ':') { r' with rest := ':' :: s } { r' with rest := s } :=
    takes_of (by decide) hs rfl
  have hclose : Reaches P σ σ₂ r r' { r₂ with widths } r₂' :=
    (hreaches.before (by rw [hmissed]) hflags).close widths (Eq.refl r₂'.widths.size)
  exact ⟨some { parts := parts' }, r₂', .plain hsign hcolon hparts', hclose,
    .some ⟨rfl, hR.dropped halike⟩⟩

/-- What stands behind an opening parenthesis without signs: what stood there, or the signs of a
group that captures nothing. -/
theorem BesideParenthesis.rest_captured (h : BesideParenthesis r σ r')
    (hnext : next? r ≠ some (.plain '?')) :
    σ.guarded = true ∧ r'.rest = converted false r.rest ∨
      σ.guarded = false ∧ r'.rest = '?' :: ':' :: converted false r.rest := by
  have hrest := h.rest
  cases hguarded : σ.guarded with
  | true =>
    rw [hguarded, converted_cons (.inr rfl)] at hrest
    exact .inl ⟨rfl, (List.cons.inj hrest).2⟩
  | false =>
    have hhead : r.rest.head? ≠ some '?' := by
      intro hhead
      obtain ⟨s, hs⟩ := List.head?_eq_some_iff.mp hhead
      exact hnext (by simp [next?, hs, nextToken?])
    rw [hguarded, converted_plain hhead] at hrest
    exact .inr ⟨rfl, (List.cons.inj hrest).2⟩

/-- A group without signs is missed where a backslash stands before it. -/
theorem accompanied_captured (hR : Congruence P R) (hr : r.rest ≠ ['\\']) {number : Nat}
    (hnext : next? r ≠ some (.plain '?')) (hopen : (openGroup none).run r = .ok (number, r₁))
    (hstep : LeavesInStep flags r₁ r₂)
    (hclose : (closeGroup number (.sequence parts)).run r₂ = .ok ((), r₃))
    (h : Accompanied P flags (BesideItem r₁) r₁ r₂ (Reads (.enclosed flags)) (R parts)) :
    Accompanied P flags (BesideParenthesis r) r r₃ (Reads (.parenthesis flags flagsAllowed))
      (Option.Rel (AlikeItem R) (some (.ofExpr (.group number (.sequence parts))))) := by
  rw [run_openGroup_none] at hopen
  cases hopen
  obtain ⟨width, rfl⟩ := run_closeGroup hclose
  obtain ⟨ts, hspans, hlength, -, -⟩ := hstep
  intro σ r' outer k ts' hbeside hleads hts'
  obtain rfl := hts'.unique hspans
  have hspans : Spans ts' r.rest r₂.rest := hspans
  -- the scan counts the group at the first token of its inside
  let σ₁ := σ.capture σ.guarded
  have hafter : σ.after ts' = σ₁.after ts' :=
    Scan.after_opened hbeside.place hspans hlength hnext
  have hhas : σ₁.Has flags.verbose (σ.verbose :: σ.outer) (k + (r.widths.push none).size) :=
    hleads.has.capture _
  have hpast : σ₁.past r.rest = σ.past r.rest := by
    rw [Scan.past_spans hleads.has.pending hspans, Scan.past_spans hhas.pending hspans, hafter]
  have hinside : ∀ r₁', Twin false { r with widths := r.widths.push none } r₁' →
      InsideBeside P R flags parts σ₁ (σ.after ts') { r with widths := r.widths.push none } r₁' r₂ := by
    intro r₁' htwin
    rw [hafter]
    have hslashed : σ₁.slashed = false := hbeside.slashed
    exact h σ₁ r₁' _ k ts' ⟨.inl rfl, hslashed.symm ▸ htwin⟩
      (hleads.inside hpast hhas hleads.fits) hspans
  obtain ⟨hguarded, htext⟩ | ⟨hguarded, htext⟩ := hbeside.rest_captured hnext
  · have hsame := sameToken_converted false r.rest
    rw [← htext] at hsame
    have hnext' : next? r' ≠ some (.plain '?') := fun heq => hnext (hsame.trans heq)
    refine openedBeside_kept hR
      (hinside { r' with widths := r'.widths.push none } ⟨hbeside.fellow.regroup _ _, htext⟩) rfl ?_
      (Array.size_push _) fun hparts' hclose' =>
        .captured hnext' (run_openGroup_none r') hparts' hclose'
    simp only [σ₁, Scan.capture, hguarded, Bool.toNat_true]
  · have hleft := (sameToken_converted false r.rest).ne_lone hr
    refine openedBeside_dropped hR hleft htext
      (hinside _ ⟨(hbeside.fellow.goOn r.rest _).regroup _ _, rfl⟩) rfl ?_
    simp only [σ₁, Scan.capture, hguarded, Bool.toNat_false, Nat.add_zero]

/-- The name of a group is what stands before the first closing angle. -/
theorem eq_of_append_angle {cs name rest : List Char} (hcs : '>' ∉ cs)
    (hname : name.all Text.isWord = true) (h : cs ++ '>' :: s = name ++ '>' :: rest) : cs = name := by
  have hangle : '>' ∉ name := fun hmem => absurd (List.all_eq_true.mp hname _ hmem) (by decide)
  have htake : ∀ {ds s : List Char}, '>' ∉ ds → (ds ++ '>' :: s).takeWhile (· != '>') = ds := by
    intro ds s hds
    rw [List.takeWhile_append_of_pos fun d hd => by
        simpa using ne_of_mem_of_not_mem hd hds,
      List.takeWhile_cons_of_neg (by simp), List.append_nil]
  rw [← htake (s := s) hcs, h, htake hangle]

/-- The signs of a named group stay as they are, and so does its name. -/
theorem converted_namedSigns {cs : List Char} (hcs : Text.isIdentifier cs = true) (s : List Char) :
    converted false ('?' :: 'P' :: '<' :: (cs ++ '>' :: s)) =
      '?' :: 'P' :: '<' :: (cs ++ '>' :: converted false s) := by
  let signs := .plain '?' :: .plain 'P' :: .plain '<' :: (cs.map Token.plain ++ [.plain '>'])
  have hslash : ∀ t ∈ signs, t ≠ .plain '\\' := by
    have hname : '\\' ∉ cs := not_mem_of_isIdentifier hcs (by simp)
    rintro t ht rfl
    simp [signs, hname] at ht
  have hparen : .plain '(' ∉ signs := by
    simpa [signs] using not_mem_of_isIdentifier hcs (by simp)
  have hwritten : converted false (written signs ++ s) =
      written signs ++ converted (endsSlashed false signs) s := converted_written hslash hparen
  simpa [signs, Token.chars] using hwritten

/-- What becomes of a named group: it is kept whole, or loses its name. -/
theorem converted_name {cs : List Char} (hcs : Text.isIdentifier cs = true) (escaped : Bool)
    (s : List Char) :
    (escaped || !cs.all Text.isWord) = true ∧
        converted escaped ('(' :: '?' :: 'P' :: '<' :: (cs ++ '>' :: s)) =
          '(' :: '?' :: 'P' :: '<' :: (cs ++ '>' :: converted false s) ∨
      (escaped || !cs.all Text.isWord) = false ∧
        converted escaped ('(' :: '?' :: 'P' :: '<' :: (cs ++ '>' :: s)) =
          '(' :: '?' :: ':' :: converted false s := by
  have hangle : '>' ∉ cs := not_mem_of_isIdentifier hcs (by simp)
  have hne : cs ≠ [] := by
    rintro rfl
    cases hcs
  rw [← converted_namedSigns hcs]
  cases escaped with
  | true => exact .inl ⟨rfl, converted_cons (.inr rfl)⟩
  | false =>
    cases hword : cs.all Text.isWord with
    | true => exact .inr ⟨rfl, converted_named hne hword⟩
    | false =>
      refine .inl ⟨rfl, converted_kept rfl (Option.eq_none_iff_forall_not_mem.mpr fun rest hrest => ?_)⟩
      obtain ⟨name, heq, -, hname⟩ := exists_of_afterNamedGroup? hrest
      obtain rfl := eq_of_append_angle hangle hname (by simpa using heq)
      simp [hname] at hword

/-- The signs of a named group are taken one by one. -/
theorem takes_namedSigns {cs : List Char} (h : r.rest = '?' :: 'P' :: '<' :: (cs ++ '>' :: s)) :
    ∃ r₁ r₂, Takes (.plain '?') r r₁ ∧ Takes (.plain 'P') r₁ r₂ ∧
      Takes (.plain '<') r₂ { r with rest := cs ++ '>' :: s } := by
  have hleft : cs ++ '>' :: s ≠ ['\\'] := by
    intro hlone
    cases cs <;> simp at hlone
  exact ⟨{ r with rest := 'P' :: '<' :: (cs ++ '>' :: s) }, { r with rest := '<' :: (cs ++ '>' :: s) },
    takes_of (by decide) (by simp) h, takes_of (by decide) (by simp) rfl,
    takes_of (by decide) hleft rfl⟩

/-- A name may be noted on one side only. -/
theorem Fellow.unnamed (h : Fellow r r') (name : String) (s s' : List Char) (number : Nat)
    (widths : Array (Option Width)) :
    Fellow { r with rest := s, names := (name, number) :: r.names, widths }
      { r' with rest := s' } := by
  refine ⟨h.flags, fun other hnone => h.names other ?_, h.behind, h.conditions, h.unfixed⟩
  dsimp only at hnone
  rw [List.lookup_cons] at hnone
  split at hnone
  · cases hnone
  · exact hnone

theorem Fellow.named (h : Fellow r r') (name : String) (s s' : List Char) (number number' : Nat)
    (widths widths' : Array (Option Width)) :
    Fellow { r with rest := s, names := (name, number) :: r.names, widths }
      { r' with rest := s', names := (name, number') :: r'.names, widths := widths' } := by
  refine ⟨h.flags, fun other hnone => ?_, h.behind, h.conditions, h.unfixed⟩
  dsimp only at hnone ⊢
  rw [List.lookup_cons] at hnone ⊢
  cases hother : other == name with
  | true => simp [hother] at hnone
  | false =>
    rw [hother] at hnone
    exact h.names other hnone

/-- A named group is missed where a backslash stands before it or its name is not made of word
characters. -/
theorem accompanied_named (hR : Congruence P R) (hr : r.rest ≠ ['\\']) {name : String}
    {number : Nat} {r₄ r₅ r₆ r₇ : Reading} (hsign : Takes (.plain '?') r r₁)
    (hletter : Takes (.plain 'P') r₁ r₂) (hangle : Takes (.plain '<') r₂ r₃)
    (hname : (groupName '>').run r₃ = .ok (name, r₄))
    (hopen : (openGroup (some name)).run r₄ = .ok (number, r₅)) (hrest : ∃ us, Spans us r₅.rest r₆.rest)
    (hclose : (closeGroup number (.sequence parts)).run r₆ = .ok ((), r₇))
    (h : Accompanied P flags (BesideItem r₅) r₅ r₆ (Reads (.enclosed flags)) (R parts)) :
    Accompanied P flags (BesideParenthesis r) r r₇ (Reads (.parenthesis flags flagsAllowed))
      (Option.Rel (AlikeItem R) (some (.ofExpr (.group number (.sequence parts))))) := by
  have hspans₁ := hsign.spans hr
  have hspans₂ := hletter.spans hspans₁.left
  have hspans₃ := hangle.spans hspans₂.left
  obtain ⟨_, hspans₄, ⟨cs, rfl, hcs, hidentifier, -⟩, hr₄, hagain⟩ :=
    shaped_groupName '>' hspans₃.left hname
  obtain ⟨hnew, hnumber, hr₅⟩ := run_openGroup_some.mp hopen
  obtain ⟨width, rfl⟩ := run_closeGroup hclose
  have hr₄ : r₄ = { r with rest := r₄.rest } := by rw [hr₄, hangle.eq, hletter.eq, hsign.eq]
  have hnames : r₄.names = r.names := by rw [hr₄]
  have hwidths : r₄.widths = r.widths := by rw [hr₄]
  have hrest₅ : r₅.rest = r₄.rest := by rw [hr₅]
  have hsigns := hspans₁.append (hspans₂.append (hspans₃.append hspans₄))
  have htext : r.rest = '?' :: 'P' :: '<' :: (cs ++ '>' :: r₄.rest) := by
    rw [hsigns.eq]
    simp [Token.chars]
  intro σ r' outer k ts hbeside hleads hts
  have hleft := (sameToken_converted false r₄.rest).ne_lone hspans₄.left
  -- the scan behind the name
  let missed := σ.guarded || !cs.all Text.isWord
  have hafter : σ.after ([.plain '?'] ++ ([.plain 'P'] ++ ([.plain '<'] ++
      (cs.map Token.plain ++ [.plain '>'])))) = (σ.capture missed).moved .item false :=
    Scan.after_named hbeside.place hcs
  have hhas : ((σ.capture missed).moved .item false).Has flags.verbose (σ.verbose :: σ.outer)
      (k + r₅.widths.size) := by
    rw [hr₅, hwidths]
    exact (hleads.has.capture _).moved _ _
  have hinside : ∀ r₅', Twin false r₅ r₅' →
      InsideBeside P R flags parts ((σ.capture missed).moved .item false) (σ.after ts) r₅ r₅' r₆ := by
    intro r₅' htwin
    rw [← hrest₅] at hsigns
    rw [← hafter]
    exact h.of_signs hsigns hrest hts hleads (by rw [hafter]; rfl)
      (by rw [hafter]; exact hhas) hleads.fits (by rw [hafter]; exact htwin)
  have hr₅ : r₅ = { r with
      rest := r₄.rest, names := (name, number) :: r.names, widths := r.widths.push none } := by
    rw [hr₅, hr₄, hnumber, hwidths]
  have hflags : r₅.flags = r.flags := by rw [hr₅]
  have hfellow := hbeside.fellow
  have hparen := hbeside.rest
  rw [htext] at hparen
  obtain ⟨hmissed, heq⟩ | ⟨hmissed, heq⟩ := converted_name hidentifier σ.guarded r₄.rest
  · have hcount : missed.toNat = 1 := by simp only [missed, hmissed, Bool.toNat_true]
    let s₁ := converted false r₄.rest
    have htext' : r'.rest = '?' :: 'P' :: '<' :: (cs ++ '>' :: s₁) :=
      (List.cons.inj (hparen.trans heq)).2
    obtain ⟨r₁', r₂', hsign', hletter', hangle'⟩ := takes_namedSigns htext'
    have hname' : (groupName '>').run { r' with rest := cs ++ '>' :: s₁ } =
        .ok (name, { r' with rest := s₁ }) :=
      hagain trivial { r' with rest := cs ++ '>' :: s₁ } s₁ (by simp [Token.chars])
        (sameToken_converted false r₄.rest)
    have hopen' : (openGroup (some name)).run { r' with rest := s₁ } =
        .ok (r'.widths.size + 1, { r' with
          rest := s₁, names := (name, r'.widths.size + 1) :: r'.names
          widths := r'.widths.push none }) :=
      run_openGroup_some.mpr ⟨hfellow.names name (hnames ▸ hnew), rfl, rfl⟩
    refine openedBeside_kept hR (hinside _ ⟨?_, hrest₅ ▸ rfl⟩) hflags
      (by simp only [Scan.capture, Scan.moved, hcount]) (Array.size_push _)
      fun hparts' hclose' => .named hsign' hletter' hangle' hname' hopen' hparts' hclose'
    rw [hr₅]
    exact hfellow.named name r₄.rest s₁ _ _ _ _
  · have hcount : missed.toNat = 0 := by simp only [missed, hmissed, Bool.toNat_false]
    have hrest' := (List.cons.inj (hparen.trans heq)).2
    refine openedBeside_dropped hR hleft hrest' (hinside _ ⟨?_, hrest₅ ▸ rfl⟩) hflags ?_
    · rw [hr₅]
      exact hfellow.unnamed name r₄.rest _ _ _
    · simp only [Scan.capture, Scan.moved, hcount, Nat.add_zero]

/-- Signs that begin no capturing group stand in the text beside, too. -/
theorem BesideParenthesis.takes (h : BesideParenthesis r σ r') (hr : r.rest ≠ ['\\']) {c : Char}
    (hsign : Takes (.plain '?') r r₁) (hmark : Takes (.plain c) r₁ r₂) (hc : c ∉ ['P', '(']) :
    Twin false r₂ { r' with rest := converted false r₂.rest } ∧
      ∃ r₁', Takes (.plain '?') r' r₁' ∧
        Takes (.plain c) r₁' { r' with rest := converted false r₂.rest } := by
  have hspans₁ := hsign.spans hr
  have hspans₂ := hmark.spans hspans₁.left
  have hslash : c ≠ '\\' := by
    rintro rfl
    exact hspans₂.tokens _ (by simp) rfl
  simp only [List.mem_cons, List.not_mem_nil, or_false, not_or] at hc
  have htext : r.rest = '?' :: c :: r₂.rest := by
    rw [hspans₁.eq, hspans₂.eq]
    rfl
  have hnone : afterNamedGroup? ('(' :: r.rest) = none := by
    refine Option.eq_none_iff_forall_not_mem.mpr fun rest hrest => ?_
    obtain ⟨name, heq, -⟩ := exists_of_afterNamedGroup? hrest
    rw [htext] at heq
    exact hc.1 (List.cons.inj (List.cons.inj (List.cons.inj heq).2).2).1
  have htext' : r'.rest = '?' :: c :: converted false r₂.rest := by
    have hflag : (c == '\\') = false := by simpa using hslash
    have heq := h.rest
    rw [converted_kept (by rw [htext]; rfl) hnone, htext, converted_cons (.inl (by decide)),
      converted_cons (.inl hc.2), hflag] at heq
    exact (List.cons.inj heq).2
  have hleft := (sameToken_converted false r₂.rest).ne_lone hspans₂.left
  have hr₂ : r₂ = { r with rest := r₂.rest } := by rw [hmark.eq, hsign.eq]
  exact ⟨⟨h.fellow.goOn_left hr₂ _, rfl⟩, { r' with rest := c :: converted false r₂.rest },
    takes_of (by decide) (by simp [hslash]) htext', takes_of (by simpa using hslash) hleft rfl⟩

/-- A sign behind the question mark, and the inside of the group. -/
theorem accompanied_sign {c : Char} {wrap : List Expr → Item} (hr : r.rest ≠ ['\\'])
    (hsign : Takes (.plain '?') r r₁) (hmark : Takes (.plain c) r₁ r₂) (hc : c ∈ [':', '=', '!', '>'])
    (halike : ∀ parts', R parts parts' → AlikeItem R (wrap parts) (wrap parts'))
    (hreads : ∀ {r' r₁' r₂' parts' r₃'}, Takes (.plain '?') r' r₁' → Takes (.plain c) r₁' r₂' →
      Reads (.enclosed flags) r₂' parts' r₃' →
      Reads (.parenthesis flags flagsAllowed) r' (some (wrap parts')) r₃')
    (hrest : ∃ us, Spans us r₂.rest r₃.rest)
    (h : Accompanied P flags (BesideItem r₂) r₂ r₃ (Reads (.enclosed flags)) (R parts)) :
    Accompanied P flags (BesideParenthesis r) r r₃ (Reads (.parenthesis flags flagsAllowed))
      (Option.Rel (AlikeItem R) (some (wrap parts))) := by
  intro σ r' outer k ts hbeside hleads hts
  have hother : c ∉ ['P', '('] := by
    simp only [List.mem_cons, List.not_mem_nil, or_false] at hc
    obtain rfl | rfl | rfl | rfl := hc <;> decide
  obtain ⟨htwin, r₁', hsign', hmark'⟩ := hbeside.takes hr hsign hmark hother
  have hspans := (hsign.spans hr).append (hmark.spans (hsign.spans hr).left)
  have hr₂ : r₂ = { r with rest := r₂.rest } := by rw [hmark.eq, hsign.eq]
  have hafter : σ.after ([.plain '?'] ++ [.plain c]) = (σ.enter σ.verbose).moved .item false :=
    Scan.after_sign hbeside.place hc
  have hhas : ((σ.enter σ.verbose).moved .item false).Has flags.verbose (σ.verbose :: σ.outer)
      (k + r₂.widths.size) :=
    ⟨rfl, hleads.has.verbose, rfl, by rw [hr₂]; exact hleads.has.openings⟩
  rw [← hafter] at hhas
  obtain ⟨parts', r₃', hparts', hreaches, hparts⟩ := h.of_signs hspans hrest hts hleads
    (by rw [hafter]; rfl) hhas hleads.fits (by rw [hafter]; exact htwin)
  refine ⟨_, _, hreads hsign' hmark' hparts', ?_, .some (halike _ hparts)⟩
  rw [hafter] at hreaches
  exact hreaches.before rfl (by rw [hr₂])

theorem accompanied_comment (hr : r.rest ≠ ['\\']) (hsign : Takes (.plain '?') r r₁)
    (hmark : Takes (.plain '#') r₁ r₂)
    (hskip : (skipPast ')' false (r₂.rest.length + 1)).run r₂ = .ok ((), r₃)) :
    Accompanied P flags (BesideParenthesis r) r r₃ (Reads (.parenthesis flags flagsAllowed))
      (Option.Rel (AlikeItem R) none) := by
  intro σ r' outer k ts hbeside hleads hts
  obtain ⟨htwin, r₁', hsign', hmark'⟩ := hbeside.takes hr hsign hmark (by decide)
  have hspans₁ := hsign.spans hr
  have hspans₂ := hmark.spans hspans₁.left
  obtain ⟨hr₃, us, hus, hspans₃ | ⟨hfalse, -⟩⟩ :=
    run_skipPast hspans₂.left (Nat.lt_succ_self _) hskip
  · have hr₃ : r₃ = { r with rest := r₃.rest } := by rw [hr₃, hmark.eq, hsign.eq]
    obtain rfl := hts.unique (hspans₁.append (hspans₂.append hspans₃))
    obtain ⟨-, hrun⟩ := run_skipPast_converted (by decide) (by decide) hus hspans₃ (.inl rfl) htwin.rest
    rw [endsSlashed_concat] at hrun
    refine ⟨none, _, .comment hsign' hmark' hrun, ?_, .none⟩
    rw [List.singleton_append, List.singleton_append, Scan.after_comment hbeside.place hus]
    exact ⟨⟨hbeside.fellow.goOn_left hr₃ _, rfl⟩, rfl, .inr (by rw [hr₃])⟩
  · cases hfalse

/-! ### Look-behinds -/

/-- A token that is no opening parenthesis is taken on both sides. -/
theorem Reaches.take {σ₁ : Scan} {r₁' : Reading} {t : Token} (h : Reaches P σ σ₁ r r' r₁ r₁')
    (hr₁ : r₁.rest ≠ ['\\']) (htake : Takes t r₁ r₂) (ht : t ≠ .plain '(')
    (hmissed : (σ₁.next t).missed = σ₁.missed) :
    ∃ r₂', Takes t r₁' r₂' ∧ Reaches P σ (σ₁.next t) r r' r₂ r₂' := by
  have hspans := htake.spans hr₁
  obtain ⟨htext, htwin⟩ := h.twin.pass hspans htake.eq (by simpa using ht.symm)
  have hleft := (sameToken_converted (σ₁.after [t]).slashed r₂.rest).ne_lone hspans.left
  refine ⟨_, takes_of (hspans.tokens t (by simp)) hleft (by simpa using htext), htwin, ?_, ?_⟩
  · rw [hmissed]
    exact h.groups
  · exact h.flags.imp_right fun hsame => by rw [htake.eq, hsame]

theorem Fellow.enterBehind (h : Fellow r r') : Fellow (enterBehind r) (enterBehind r') := by
  unfold Reader.enterBehind
  rw [h.behind]
  split
  · exact ⟨h.flags, h.names, rfl, h.conditions, h.unfixed⟩
  · exact h

theorem Fellow.leaveBehind (h : Fellow r r') (h₁ : Fellow r₁ r₁') :
    Fellow (leaveBehind r r₁) (leaveBehind r' r₁') := by
  unfold Reader.leaveBehind
  rw [h.behind]
  split
  · exact ⟨h₁.flags, h₁.names, rfl, h₁.conditions, h₁.unfixed⟩
  · exact h₁

theorem enterBehind_eq (r : Reading) : enterBehind r = { r with behind := (enterBehind r).behind } := by
  unfold enterBehind
  split <;> rfl

theorem leaveBehind_eq (outer r : Reading) :
    leaveBehind outer r = { r with behind := (leaveBehind outer r).behind } := by
  unfold leaveBehind
  split <;> rfl

theorem rest_markUnfixed (width : Width) (r : Reading) : (markUnfixed width r).rest = r.rest := by
  unfold markUnfixed
  split <;> rfl

theorem Reaches.leaveBehind {σ₁ : Scan}
    (h : Reaches P σ σ₁ (enterBehind r) (enterBehind r') r₁ r₁') (hfellow : Fellow r r') :
    Reaches P σ σ₁ r r' (leaveBehind r r₁) (leaveBehind r' r₁') := by
  have hwidths : (Reader.leaveBehind r' r₁').widths = r₁'.widths := by rw [leaveBehind_eq]
  have hentered : (enterBehind r').widths = r'.widths := by rw [enterBehind_eq]
  refine ⟨⟨hfellow.leaveBehind h.twin.fellow, ?_⟩, ?_, h.flags.imp_right fun hsame => ?_⟩
  · rw [leaveBehind_eq, leaveBehind_eq r]
    exact h.twin.rest
  · rw [hwidths, ← hentered]
    exact h.groups
  · rw [leaveBehind_eq]
    exact hsame.trans (by rw [enterBehind_eq])

theorem Reaches.markUnfixed {σ₁ : Scan} (h : Reaches P σ σ₁ r r' r₁ r₁') (width : Width) :
    Reaches P σ σ₁ r r' (markUnfixed width r₁) (markUnfixed width r₁') := by
  have hfellow := h.twin.fellow
  unfold Reader.markUnfixed
  split
  · exact ⟨⟨⟨hfellow.flags, hfellow.names, hfellow.behind, hfellow.conditions, rfl⟩, h.twin.rest⟩,
      h.groups, h.flags⟩
  · exact h

/-- A closing parenthesis behind alternatives is taken on both sides. -/
theorem Reaches.takeClose {σ₁ : Scan} (h : Reaches P σ σ₁ r r' r₁ r₁') (hr₁ : r₁.rest ≠ ['\\'])
    (hitem : σ₁.AtItem r₁.rest) (hend : Takes (.plain ')') r₁ r₂) :
    ∃ r₂', Takes (.plain ')') r₁' r₂' ∧ Reaches P σ (σ₁.after [.plain ')']) r r' r₂ r₂' :=
  h.take hr₁ hend (by decide) (by rw [Scan.next_close (hitem.place hend.ne_nil)]; rfl)

theorem accompanied_enclosed {alike : List Expr → Prop} (hstep : KeepsStep (some flags) r r₁)
    (hend : Takes (.plain ')') r₁ r₂)
    (h : Accompanied P flags (BesideItem r) r r₁ (Reads (.alternatives (some flags) false)) alike) :
    Accompanied P flags (BesideItem r) r r₂ (Reads (.enclosed flags)) alike := by
  intro σ r' outer k ts hbeside hleads hts
  obtain ⟨us, hus, -, hscan⟩ := hstep
  obtain rfl := hts.unique (hus.append (hend.spans hus.left))
  obtain ⟨parts', r₁', hparts', hreaches, halike⟩ := h σ r' outer k us hbeside hleads hus
  obtain ⟨r₂', hend', hreaches'⟩ :=
    hreaches.takeClose hus.left (hscan σ outer k hbeside.1 hleads.has).1 hend
  rw [Scan.after_append]
  exact ⟨parts', r₂', .enclosed hparts' hend', hreaches', halike⟩

theorem exists_spans_behind (hstep : KeepsStep scope (enterBehind r) r₁)
    (hend : Takes (.plain ')') (leaveBehind r r₁) r₂) : ∃ us, Spans us r.rest r₂.rest := by
  obtain ⟨us, hus, -⟩ := hstep
  have hrest : (leaveBehind r r₁).rest = r₁.rest := by rw [leaveBehind_eq]
  rw [rest_enterBehind, ← hrest] at hus
  exact ⟨_, hus.append (hend.spans hus.left)⟩

/-- The inside of a look-behind, and its closing parenthesis. -/
def ReadsBehind (flags : Flags) (r : Reading) (parts : List Expr) (r₂ : Reading) : Prop :=
  ∃ r₁, Reads (.alternatives (some flags) false) (enterBehind r) parts r₁ ∧
    Takes (.plain ')') (leaveBehind r r₁) r₂

theorem accompanied_insideBehind {alike : List Expr → Prop}
    (hstep : KeepsStep (some flags) (enterBehind r) r₁) (hend : Takes (.plain ')') (leaveBehind r r₁) r₂)
    (h : Accompanied P flags (BesideItem (enterBehind r)) (enterBehind r) r₁
      (Reads (.alternatives (some flags) false)) alike) :
    Accompanied P flags (BesideItem r) r r₂ (ReadsBehind flags) alike := by
  intro σ r' outer k ts ⟨hitem, htwin⟩ hleads hts
  obtain ⟨us, hus, -, hscan⟩ := hstep
  have hrest : (enterBehind r).rest = r.rest := rest_enterBehind r
  have hwidths : (enterBehind r).widths = r.widths := by rw [enterBehind_eq]
  have hrest₁ : (leaveBehind r r₁).rest = r₁.rest := by rw [leaveBehind_eq]
  have hleft : (leaveBehind r r₁).rest ≠ ['\\'] := hrest₁ ▸ hus.left
  rw [← hrest₁] at hus
  obtain rfl := hts.unique (hrest ▸ hus.append (hend.spans hleft))
  have hleads' : Leads P σ flags outer k (enterBehind r) := by
    refine ⟨?_, hleads.fits, ?_, ?_⟩
    · rw [hwidths]
      exact hleads.has
    · rw [hrest]
      exact hleads.classParens
    · rw [hrest]
      exact hleads.flagged
  have htwin' : Twin σ.slashed (enterBehind r) (enterBehind r') :=
    ⟨htwin.fellow.enterBehind, by rw [rest_enterBehind, hrest, htwin.rest]⟩
  obtain ⟨parts', r₁', hparts', hreaches, halike⟩ :=
    h σ (enterBehind r') outer k us ⟨hrest ▸ hitem, htwin'⟩ hleads' (hrest₁ ▸ hus)
  have hitem₁ := (hscan σ outer k (hrest ▸ hitem) hleads'.has).1
  obtain ⟨r₂', hend', hreaches'⟩ :=
    (hreaches.leaveBehind htwin.fellow).takeClose hleft (hrest₁ ▸ hitem₁) hend
  rw [Scan.after_append]
  exact ⟨parts', r₂', ⟨r₁', hparts', hend'⟩, hreaches', halike⟩

/-- A look-behind is as wide without its captures. -/
theorem accompanied_behind (hR : Congruence P R) (hr : r.rest ≠ ['\\']) {negated : Bool}
    {r₄ : Reading} (hsign : Takes (.plain '?') r r₁) (hangle : Takes (.plain '<') r₁ r₂)
    (hmark : Takes (assertionSign negated) r₂ r₃) (hrest : ∃ us, Spans us r₃.rest r₄.rest)
    (h : Accompanied P flags (BesideItem r₃) r₃ r₄ (ReadsBehind flags) (R parts)) :
    Accompanied P flags (BesideParenthesis r) r
      (markUnfixed ((Expr.sequence parts).width (widthsOf r₄)) r₄)
      (Reads (.parenthesis flags flagsAllowed))
      (Option.Rel (AlikeItem R) (some (.ofExpr (.behind negated
        ((Expr.sequence parts).width (widthsOf r₄)).least (.sequence parts))))) := by
  intro σ r' outer k ts hbeside hleads hts
  rw [rest_markUnfixed] at hts
  obtain ⟨htwin, r₁', hsign', hangle'⟩ := hbeside.takes hr hsign hangle (by decide)
  have hspans₁ := hsign.spans hr
  have hspans₂ := hangle.spans hspans₁.left
  have hsigns := hspans₁.append (hspans₂.append (hmark.spans hspans₂.left))
  have hr₃ : r₃ = { r with rest := r₃.rest } := by rw [hmark.eq, hangle.eq, hsign.eq]
  have hafter : σ.after ([.plain '?'] ++ ([.plain '<'] ++ [assertionSign negated])) =
      (σ.enter σ.verbose).moved .item false := Scan.after_angle hbeside.place
  have hhas : ((σ.enter σ.verbose).moved .item false).Has flags.verbose (σ.verbose :: σ.outer)
      (k + r₃.widths.size) :=
    ⟨rfl, hleads.has.verbose, rfl, by rw [hr₃]; exact hleads.has.openings⟩
  -- the third sign
  have hreaches₂ : Reaches P σ (σ.moved .angle false) r r' r₂ { r' with rest := converted false r₂.rest } :=
    ⟨htwin, rfl, .inr (by rw [hangle.eq, hsign.eq])⟩
  obtain ⟨r₃', hmark', hreaches₃⟩ :=
    hreaches₂.take hspans₂.left hmark (by cases negated <;> decide) rfl
  obtain ⟨parts', r₄', ⟨r₅', hparts', hend'⟩, hreaches₄, halike⟩ := h.of_signs hsigns hrest hts hleads
    (by rw [hafter]; rfl) (by rw [hafter]; exact hhas) hleads.fits (by rw [hafter]; exact hreaches₃.twin)
  rw [hafter] at hreaches₄
  have hwidth := (hR.shape halike).width (widthsOf r₄) (widthsOf r₄')
  refine ⟨_, _, .behind hsign' hangle' hmark' hparts' hend', ?_, ?_⟩
  · rw [← hwidth]
    exact (hreaches₃.trans hreaches₄).markUnfixed _
  · rw [← hwidth]
    exact .some ⟨rfl, hR.behind halike⟩

/-! ### Flags -/

/-- Where a scan comes to flags, all flags have the property. -/
theorem Leads.forall (h : Leads P σ flags outer k r) (hspans : Spans ts r.rest r₁.rest)
    (hflagged : 0 < (σ.after ts).flagged) : ∀ f, P f := by
  refine h.flagged.resolve_right fun hnone => ?_
  rw [Scan.past_spans h.has.pending hspans] at hnone
  have hgrows := (Scan.grows_past (σ.after ts) r₁.rest).flagged
  omega

/-- Letters of flags are read on both sides. -/
theorem Twin.run_groupFlags {c : Char} {found : Option (Flags × Flags)} (h : Twin false r r')
    (hr : r.rest ≠ ['\\']) (hflags : (groupFlags c).run r = .ok (found, r₁)) :
    ∃ ts flags s', Spans ts r.rest r₁.rest ∧ AreFlagSigns c flags ts ∧
      found = flags.2.map (flags.1, ·) ∧ r₁ = applied flags { r with rest := r₁.rest } ∧
      s' = converted false r₁.rest ∧
      (groupFlags c).run r' = .ok (found, applied flags { r' with rest := s' }) := by
  obtain ⟨ts, flags, hspans, hts, hfound, hr₁, hagain⟩ := Reader.run_groupFlags hr hflags
  refine ⟨ts, flags, _, hspans, hts, hfound, hr₁, rfl, hagain r' _ ?_ (sameToken_converted _ _)⟩
  have hends : endsSlashed false ts = false := by
    obtain ⟨body, rfl, -⟩ := hts
    exact endsSlashed_concat ..
  rw [h.rest, hspans.eq, converted_written hspans.tokens hts.not_mem, hends]

theorem not_mem_of_isFlagSign {c : Char} (hc : c = '-' ∨ (Flags.ofLetter? c).isSome) :
    c ∉ ['P', '('] := by
  have hnot : ∀ d ∈ ['P', '('], d ≠ '-' ∧ Flags.ofLetter? d = none := forall_mem_of_all (by decide)
  intro hmem
  obtain ⟨hminus, hletter⟩ := hnot _ hmem
  simp [hminus, hletter] at hc

theorem accompanied_setFlags {c : Char} (hr : r.rest ≠ ['\\']) (hsign : Takes (.plain '?') r r₁)
    (hletter : Takes (.plain c) r₁ r₂) (hc : c = '-' ∨ (Flags.ofLetter? c).isSome)
    (hflags : (groupFlags c).run r₂ = .ok (none, r₃)) :
    Accompanied P flags (BesideParenthesis r) r r₃ (Reads (.parenthesis flags true))
      (Option.Rel (AlikeItem R) none) := by
  intro σ r' outer k ts hbeside hleads hts
  obtain ⟨htwin, r₁', hsign', hletter'⟩ :=
    hbeside.takes hr hsign hletter (not_mem_of_isFlagSign hc)
  have hspans₁ := hsign.spans hr
  have hspans₂ := hletter.spans hspans₁.left
  have hr₂ : r₂ = { r with rest := r₂.rest } := by rw [hletter.eq, hsign.eq]
  obtain ⟨us, ⟨added, _ | dropped⟩, s', hspans₃, hsigns, hfound, hr₃, rfl, hrun⟩ :=
    htwin.run_groupFlags hspans₂.left hflags
  · obtain rfl := hts.unique (hspans₁.append (hspans₂.append hspans₃))
    have hafter := Scan.after_groupFlags hbeside.place hc hsigns
    have hall := hleads.forall hts (by
      rw [List.singleton_append, List.singleton_append, hafter]
      exact Nat.succ_pos _)
    refine ⟨none, _, .setFlags hsign' hletter' hc hrun, ?_, .none⟩
    rw [List.singleton_append, List.singleton_append, hafter, hr₃]
    have hfellow := htwin.fellow
    refine ⟨⟨⟨?_, hfellow.names, hfellow.behind, hfellow.conditions, hfellow.unfixed⟩, rfl⟩, ?_,
      .inl hall⟩
    · exact congrArg (Flags.union · added) hfellow.flags
    · rw [hr₂]
      rfl
  · cases hfound

theorem accompanied_flagged (hR : Congruence P R) {c : Char} {added dropped : Flags}
    {r₄ : Reading} (hr : r.rest ≠ ['\\']) (hsign : Takes (.plain '?') r r₁)
    (hletter : Takes (.plain c) r₁ r₂) (hc : c = '-' ∨ (Flags.ofLetter? c).isSome)
    (hflags : (groupFlags c).run r₂ = .ok (some (added, dropped), r₃))
    (hrest : ∃ us, Spans us r₃.rest r₄.rest)
    (h : Accompanied P (flags.inGroup added dropped) (BesideItem r₃) r₃ r₄
      (Reads (.enclosed (flags.inGroup added dropped))) (R parts)) :
    Accompanied P flags (BesideParenthesis r) r r₄ (Reads (.parenthesis flags flagsAllowed))
      (Option.Rel (AlikeItem R) (some (.ofExpr (.flagged (.sequence parts))))) := by
  intro σ r' outer k ts hbeside hleads hts
  obtain ⟨htwin, r₁', hsign', hletter'⟩ :=
    hbeside.takes hr hsign hletter (not_mem_of_isFlagSign hc)
  have hspans₁ := hsign.spans hr
  have hspans₂ := hletter.spans hspans₁.left
  obtain ⟨us, ⟨_, _ | _⟩, s', hspans₃, hsigns, hfound, hr₃, rfl, hrun⟩ :=
    htwin.run_groupFlags hspans₂.left hflags
  · cases hfound
  obtain ⟨rfl, rfl⟩ : added = _ ∧ dropped = _ := by simpa using hfound
  have hr₃ : r₃ = { r with rest := r₃.rest } := by
    rw [hr₃, hletter.eq, hsign.eq]
    rfl
  have hspans := hspans₁.append (hspans₂.append hspans₃)
  have hafter : σ.after ([.plain '?'] ++ ([.plain c] ++ us)) = _ :=
    Scan.after_groupFlags hbeside.place hc hsigns
  have hall := hleads.forall hspans (by
    rw [hafter]
    exact Nat.succ_pos _)
  have hinner : (flags.inGroup added dropped).verbose =
      ((flags.verbose || added.verbose) && !dropped.verbose) := by
    unfold Flags.inGroup
    split <;> rfl
  have hhas : (σ.after ([.plain '?'] ++ ([.plain c] ++ us))).Has
      (flags.inGroup added dropped).verbose (σ.verbose :: σ.outer) (k + r₃.widths.size) := by
    rw [hafter]
    refine ⟨rfl, ?_, rfl, by rw [hr₃]; exact hleads.has.openings⟩
    rw [hinner, ← hleads.has.verbose]
    rfl
  obtain ⟨parts', r₄', hparts', hreaches, halike⟩ := h.of_signs hspans hrest hts hleads
    (by rw [hafter]; rfl) hhas (hall _)
    (by rw [hafter]; exact ⟨hbeside.fellow.goOn_left hr₃ _, rfl⟩)
  rw [hafter] at hreaches
  exact ⟨_, _, .flagged hsign' hletter' hc hrun hparts', hreaches.before rfl (by rw [hr₃]),
    .some ⟨rfl, hR.flagged halike⟩⟩

/-! ## Alternatives -/

theorem Leads.after {σ₁ : Scan} (h : Leads P σ (scope.getD r.flags) outer k r)
    (hspans : Spans ts r.rest r₁.rest)
    (hhas : (σ.after ts).Has (scope.getD r₁.flags).verbose outer (k + r₁.widths.size))
    (hreaches : Reaches P σ σ₁ r r' r₁ r₁') :
    Leads P (σ.after ts) (scope.getD r₁.flags) outer k r₁ := by
  have hpast := Scan.past_spans h.has.pending hspans
  refine h.inside hpast.symm hhas (hreaches.flags.elim (fun hall => hall _) fun hsame => ?_)
  rw [hsame]
  exact h.fits

theorem alike_parts (hR : Congruence P R) (h : List.Forall₂ (AlikeItem R) items items') :
    R (items.reverse.flatMap (·.parts)) (items'.reverse.flatMap (·.parts)) := by
  induction h with
  | nil => exact hR.nil
  | cons hitem _ ih =>
    rw [List.reverse_cons, List.reverse_cons, List.flatMap_append, List.flatMap_append,
      List.flatMap_singleton, List.flatMap_singleton]
    exact hR.append ih hitem.parts

theorem accompanied_done (hR : Congruence P R) (hr : r.rest ≠ ['\\'])
    (hitems : List.Forall₂ (AlikeItem R) items items')
    (hnext : next? r = none ∨ next? r = some (.plain '|') ∨ next? r = some (.plain ')')) :
    Accompanied P (scope.getD r.flags) (BesideItem r) r r (Reads (.sequence scope first items'))
      (R (items.reverse.flatMap (·.parts))) := by
  intro σ r' outer k ts hbeside hleads hts
  obtain rfl := hts.unique (.nil hr)
  have hsame : next? r' = next? r := by
    have hsame := sameToken_converted σ.slashed r.rest
    rw [← hbeside.2.rest] at hsame
    exact hsame.symm
  exact ⟨_, r', .done (hsame ▸ hnext), .refl hbeside.2, alike_parts hR hitems⟩

theorem accompanied_lastBranch (hnext : next? r₁ ≠ some (.plain '|'))
    (h : Accompanied P (scope.getD r.flags) (BesideItem r) r r₁ (Reads (.sequence scope first []))
      (R parts)) :
    Accompanied P (scope.getD r.flags) (BesideItem r) r r₁ (Reads (.branches scope first))
      (List.Forall₂ R [parts]) := by
  intro σ r' outer k ts hbeside hleads hts
  obtain ⟨parts', r₁', hparts', hreaches, halike⟩ := h σ r' outer k ts hbeside hleads hts
  have hnext' : next? r₁' ≠ some (.plain '|') := by
    have hsame := sameToken_converted (σ.after ts).slashed r₁.rest
    rw [← hreaches.twin.rest] at hsame
    exact fun heq => hnext (hsame.trans heq)
  exact ⟨_, _, .lastBranch hparts' hnext', hreaches, .cons halike .nil⟩

theorem accompanied_branch {others : List (List Expr)} (hstep : KeepsStep scope r r₁)
    (hbar : Takes (.plain '|') r₁ r₂) (hrest : ∃ us, Spans us r₂.rest r₃.rest)
    (h : Accompanied P (scope.getD r.flags) (BesideItem r) r r₁ (Reads (.sequence scope first []))
      (R parts))
    (hothers : Accompanied P (scope.getD r₂.flags) (BesideItem r₂) r₂ r₃
      (Reads (.branches scope false)) (List.Forall₂ R others)) :
    Accompanied P (scope.getD r.flags) (BesideItem r) r r₃ (Reads (.branches scope first))
      (List.Forall₂ R (parts :: others)) := by
  intro σ r' outer k ts hbeside hleads hts
  obtain ⟨us, hus, -, hscan⟩ := hstep
  obtain ⟨vs, hvs⟩ := hrest
  have hspans := hus.append (hbar.spans hus.left)
  obtain rfl := hts.unique (hspans.append hvs)
  obtain ⟨parts', r₁', hparts', hreaches, halike⟩ := h σ r' outer k us hbeside hleads hus
  obtain ⟨hitem, hhas⟩ := hscan σ outer k hbeside.1 hleads.has
  -- the bar keeps the scan where it is
  have hplace := hitem.place hbar.ne_nil
  have hkeeps : (σ.after us).Keeps r₂.rest ((σ.after us).after [.plain '|']) :=
    Scan.keeps_items hplace (by simp) (by simp) (by simp)
  obtain ⟨r₂', hbar', hreaches₂⟩ := hreaches.take hus.left hbar (by decide) hkeeps.missed
  have hflags : r₂.flags = r₁.flags := by rw [hbar.eq]
  have hwidths : r₂.widths = r₁.widths := by rw [hbar.eq]
  have hhas₂ := hkeeps.has hhas
  rw [← Scan.after_append, ← hflags, ← hwidths] at hhas₂
  have hitem₂ := hkeeps.item
  rw [← Scan.after_append] at hitem₂
  have hreaches₂ : Reaches P σ (σ.after (us ++ [.plain '|'])) r r' r₂ r₂' := by
    rw [Scan.after_append]
    exact hreaches₂
  obtain ⟨others', r₃', hothers', hreaches₃, halike'⟩ := hothers (σ.after (us ++ [.plain '|'])) r₂' outer
    k vs ⟨hitem₂, hreaches₂.twin⟩ (hleads.after hspans hhas₂ hreaches₂) hvs
  rw [Scan.after_append]
  exact ⟨_, _, .branch hparts' hbar' hothers', hreaches₂.trans hreaches₃, .cons halike halike'⟩

theorem accompanied_alternatives (hR : Congruence P R) {found : List (List Expr)}
    (h : Accompanied P (scope.getD r.flags) (BesideItem r) r r₁ (Reads (.branches scope first))
      (List.Forall₂ R found)) :
    Accompanied P (scope.getD r.flags) (BesideItem r) r r₁ (Reads (.alternatives scope first))
      (R (Expr.joined (scope.getD r₁.flags).folding found)) := by
  intro σ r' outer k ts hbeside hleads hts
  obtain ⟨found', r₁', hfound', hreaches, halike⟩ := h σ r' outer k ts hbeside hleads hts
  refine ⟨_, _, .alternatives hfound', hreaches, ?_⟩
  rw [hreaches.twin.fellow.flags]
  refine hR.joined (hreaches.flags.elim (fun hall => hall _) fun hsame => ?_) halike
  rw [hsame]
  exact hleads.fits

/-! ## All of a pattern -/

theorem isFree_some {e : Expr} (h : ∀ item ∈ some (Item.ofExpr e), item.IsFree) :
    e.refers = false := by
  simpa [Item.IsFree, Item.ofExpr, refersAny] using h _ rfl

/-- Whatever is read without references is read without its captures, too. -/
theorem Reads.accompanied (hR : Congruence P R) {task : Task} {x : task.Out}
    (h : Reads task r x r₁) (hr : r.rest ≠ ['\\']) : task.Accompanied P R r x r₁ := by
  -- Each rule has the step that accompanies it.  What is left here is that no rule leaves a lone
  -- backslash for the next one, and that the parts of what refers to no group refer to none.
  induction h with
  | alternatives h ih =>
    intro hscope hfree
    rw [refersAny_joined, List.any_eq_false] at hfree
    exact accompanied_alternatives hR (ih hr hscope (by simpa using hfree))
  | lastBranch h hnext ih =>
    intro hscope hfree
    exact accompanied_lastBranch hnext (ih hr hscope (hfree _ (by simp)) [] .nil)
  | branch h hbar hothers ih ihothers =>
    intro hscope hfree
    have hstep := h.inStep hr hscope
    have hleft := (hbar.spans hstep.ne_lone).left
    obtain ⟨hfirst, hrest⟩ := List.forall_mem_cons.mp hfree
    exact accompanied_branch hstep hbar (hothers.exists_spans (fun _ => rfl) hleft) (ih hr hscope hfirst [] .nil)
      (ihothers hleft (fun _ => rfl) hrest)
  | done hnext =>
    intro _ _ items' hitems
    exact accompanied_done hR hr hitems hnext
  | escape htake hitem h ih =>
    intro hscope hfree items' hitems
    obtain ⟨ts, hspans, -⟩ := textual_escape _ _ (htake.spans hr).left hitem
    exact accompanied_escape hR hr hitems htake hitem (h.freeItems hfree _ (by simp))
      (h.exists_spans hscope hspans.left) (ih hspans.left hscope hfree)
  | remark htake hverbose hskip h ih =>
    intro hscope hfree items' hitems
    obtain ⟨ts, hspans⟩ := exists_spans_skipPast (htake.spans hr).left hskip
    exact accompanied_remark hr hitems htake hverbose hskip (h.exists_spans hscope hspans.left)
      (ih hspans.left hscope hfree)
  | charClass htake hitem h ih =>
    intro hscope hfree items' hitems
    obtain ⟨ts, hspans, -⟩ := run_charClass (htake.spans hr).left hitem
    exact accompanied_charClass hR hr hitems htake hitem (h.exists_spans hscope hspans.left)
      (ih hspans.left hscope hfree)
  | loop htake hc hcounts hlast hmode h ih =>
    intro hscope hfree items' hitems
    obtain ⟨ts, hspans, -⟩ := textual_counts? _ (htake.spans hr).left hcounts
    obtain ⟨us, hspans', -⟩ := textual_loopMode hspans.left hmode
    cases hitems with
    | cons hitem hitems =>
      exact accompanied_loop hR hr hitems hitem htake hc hcounts hlast hmode
        (h.exists_spans hscope hspans'.left) (ih hspans'.left hscope hfree)
  | brace htake hcounts h ih =>
    intro hscope hfree items' hitems
    obtain ⟨ts, hspans, -⟩ := textual_bracedCounts? (htake.spans hr).left hcounts
    exact accompanied_brace hR hr hitems htake hcounts (h.exists_spans hscope hspans.left)
      (ih hspans.left hscope hfree)
  | single htake hc hsign h ih =>
    intro hscope hfree items' hitems
    have hleft := (htake.spans hr).left
    exact accompanied_single hR hr hitems htake hc hsign (h.exists_spans hscope hleft)
      (ih hleft hscope hfree)
  | group htake hopen h ihopen ih =>
    intro hscope hfree items' hitems
    have hleft := (htake.spans hr).left
    have hstep := hopen.inStep hleft
    obtain ⟨ts, added, hspans, -⟩ := id hstep
    refine accompanied_group hscope hr hitems htake hstep (ihopen hleft ?_)
      (h.exists_spans hscope hspans.left) (ih hspans.left hscope hfree)
    intro item hmem
    exact h.freeItems hfree item (List.mem_append_left _ (by simpa using hmem))
  | captured hnext hopen h hclose ih =>
    intro hfree
    have hleft := hr
    rw [run_openGroup_none] at hopen
    cases hopen
    have hinside := isFree_some hfree
    rw [Expr.refers, refers_sequence] at hinside
    exact accompanied_captured hR hr hnext (run_openGroup_none _) (h.inStep hleft) hclose
      (ih hleft hinside)
  | named hsign hletter hangle hname hopen h hclose ih =>
    intro hfree
    have hleft := (hangle.spans (hletter.spans (hsign.spans hr).left).left).left
    obtain ⟨ts, hspans, -⟩ := shaped_groupName '>' hleft hname
    obtain ⟨-, -, hopened⟩ := run_openGroup_some.mp hopen
    have hinside := isFree_some hfree
    rw [Expr.refers, refers_sequence] at hinside
    have hleft := hspans.left
    rw [← congrArg Reading.rest hopened] at hleft
    exact accompanied_named hR hr hsign hletter hangle hname hopen (h.exists_spans trivial hleft) hclose
      (ih hleft hinside)
  | reference hsign hletter hequals hname hnumber href =>
    intro hfree
    obtain ⟨-, rfl⟩ := run_backReference_eq_ok href
    cases isFree_some hfree
  | plain hsign hcolon h ih =>
    intro hfree
    have hleft := (hcolon.spans (hsign.spans hr).left).left
    exact accompanied_sign hr hsign hcolon (by simp) (fun _ halike => ⟨rfl, halike⟩) .plain
      (h.exists_spans trivial hleft) (ih hleft (hfree _ rfl))
  | comment hsign hmark hskip =>
    intro _
    exact accompanied_comment hr hsign hmark hskip
  | ahead hsign hmark h ih =>
    intro hfree
    have hleft := (hmark.spans (hsign.spans hr).left).left
    have hinside := isFree_some hfree
    rw [Expr.refers, refers_sequence] at hinside
    exact accompanied_sign hr hsign hmark (by split <;> simp)
      (fun _ halike => ⟨rfl, hR.ahead halike⟩) .ahead (h.exists_spans trivial hleft)
      (ih hleft hinside)
  | behind hsign hangle hmark h hend ih =>
    intro hfree
    have hleft := (hmark.spans (hangle.spans (hsign.spans hr).left).left).left
    rw [← rest_enterBehind] at hleft
    have hinside := isFree_some hfree
    rw [Expr.refers, refers_sequence] at hinside
    have hstep := h.inStep hleft fun _ => rfl
    exact accompanied_behind hR hr hsign hangle hmark (exists_spans_behind hstep hend)
      (accompanied_insideBehind hstep hend (ih hleft (fun _ => rfl) hinside))
  | condition hsign hmark hgroup hbehind hyes hend ih =>
    intro hfree
    cases isFree_some hfree
  | conditionElse hsign hmark hgroup hbehind hyes hbar hno hend ihyes ihno =>
    intro hfree
    cases isFree_some hfree
  | atomic hsign hmark h ih =>
    intro hfree
    have hleft := (hmark.spans (hsign.spans hr).left).left
    have hinside := isFree_some hfree
    rw [Expr.refers, refers_sequence] at hinside
    exact accompanied_sign hr hsign hmark (by simp) (fun _ halike => ⟨rfl, hR.atomic halike⟩) .atomic
      (h.exists_spans trivial hleft) (ih hleft hinside)
  | setFlags hsign hletter hc hflags =>
    intro _
    exact accompanied_setFlags hr hsign hletter hc hflags
  | flagged hsign hletter hc hflags h ih =>
    intro hfree
    have hleft := (hletter.spans (hsign.spans hr).left).left
    obtain ⟨ts, found, hspans, -⟩ := run_groupFlags hleft hflags
    have hinside := isFree_some hfree
    rw [Expr.refers, refers_sequence] at hinside
    exact accompanied_flagged hR hr hsign hletter hc hflags (h.exists_spans trivial hspans.left)
      (ih hspans.left hinside)
  | enclosed h hend ih =>
    intro hfree
    exact accompanied_enclosed (h.inStep hr fun _ => rfl) hend (ih hr (fun _ => rfl) hfree)

end Reader

open Reader

/-- A pattern that refers to no group and has no parenthesis in a class can also be read with its
captures rewritten; it has then as many groups as the rewriting has missed. -/
theorem exists_read_converted {P : Flags → Prop} {R : List Expr → List Expr → Prop}
    (hR : Congruence P R) {source : String} {x : Regex} (h : read source = .ok x)
    (hfree : x.expr.refers = false) (hP : P {})
    (hparens : (({} : Scan).past source.toList).classParens = 0)
    (hflagged : (∀ f, P f) ∨ (({} : Scan).past source.toList).flagged = 0) :
    ∃ parts parts' flags, P flags ∧ R parts parts' ∧ x.expr = .sequence parts ∧
      x.start = startSet? flags.ascii (.sequence parts) ∧
      read (String.ofList (convertCaptures source.toList)) = .ok {
        source := String.ofList (convertCaptures source.toList), expr := .sequence parts'
        groupCount := (({} : Scan).past source.toList).missed
        start := startSet? flags.ascii (.sequence parts') } := by
  obtain ⟨hlone, parts, r, hreads, hpasses, rfl⟩ := read_eq_ok_iff.mp h
  have hscope : (none : Option Flags).isSome → true = false := fun h => by cases h
  obtain ⟨ts, hts⟩ := hreads.exists_spans hscope hlone
  rw [refers_sequence] at hfree
  let r' : Reading := { rest := converted false source.toList }
  -- both readings begin with no groups, and the scan has missed none
  obtain ⟨parts', r₁', hreads', hreaches, halike⟩ := hreads.accompanied hR hlone hscope hfree {} r' []
    0 ts ⟨.inl rfl, ⟨rfl, fun _ h => h, rfl, rfl, rfl⟩, rfl⟩
    ⟨⟨rfl, rfl, rfl, rfl⟩, hP, hparens, hflagged⟩ hts
  have hfellow := hreaches.twin.fellow
  have hpast : ({} : Scan).past source.toList = ({} : Scan).after ts := by
    rw [Scan.past_spans rfl hts, hpasses.rest]
    rfl
  have hpasses' : Passes r₁' (.sequence parts') := by
    constructor
    case classes =>
      rw [hfellow.flags]
      exact hpasses.classes
    case rest =>
      rw [hreaches.twin.rest, hpasses.rest, converted_nil]
    case conditions =>
      simp [hfellow.conditions]
    case unfixed =>
      rw [hfellow.unfixed]
      exact hpasses.unfixed
    case loops =>
      have hloops := hpasses.loops
      rw [Expr.isTally_hasLoop.sequence] at hloops ⊢
      rw [hfellow.flags, ← (hR.shape halike).hasLoop]
      exact hloops
  have hsize : r₁'.widths.size = (({} : Scan).past source.toList).missed := by
    rw [hpast]
    simpa [r'] using hreaches.groups
  refine ⟨parts, parts', r.flags, hreaches.flags.elim (fun hall => hall _) fun hsame => ?_, halike,
    rfl, rfl, read_eq_ok_iff.mpr ⟨?_, parts', r₁', ?_, hpasses', ?_⟩⟩
  · rw [hsame]
    exact hP
  · rw [String.toList_ofList]
    exact (sameToken_converted false _).ne_lone hlone
  · rw [String.toList_ofList]
    exact hreads'
  · rw [hsize, hfellow.flags]

end StepTrace.Regex
