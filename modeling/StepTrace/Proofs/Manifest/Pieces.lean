import StepTrace.Manifest.Constant
import Mathlib.Data.List.Infix
import Mathlib.Data.List.Flatten
import Mathlib.Data.List.TakeWhile
import Mathlib.Order.Basic
import Mathlib.Tactic.SplitIfs

/-!
# The pieces of a pattern while constants are put in

A text in which every number sign begins a reference can be cut anywhere between its pieces: the
pieces of two such texts written one behind the other are the pieces of both.  So putting a constant
in acts piece by piece, and no reference arises or is lost where two texts meet.

* `reference?_eq_some_iff` says what a reference looks like.
* `pieces_append` cuts a text in two.
* `pieces_putConstant` gives the pieces of a pattern after a constant is put in.
-/

namespace StepTrace

/-! ## Blanks and word characters -/

namespace Text

/-- The members of `blankSet`. -/
def blankCodes : List Nat :=
  [9, 10, 11, 12, 13, 28, 29, 30, 31, 32, 133, 160, 5760, 8192, 8193, 8194, 8195, 8196, 8197, 8198,
    8199, 8200, 8201, 8202, 8232, 8233, 8239, 8287, 12288]

theorem mem_blankCodes {n : Nat} (h : blankSet.contains n = true) : n ∈ blankCodes := by
  simp [blankSet, CodeSet.contains, CodeSet.count, CodeSet.countFrom] at h
  simp only [blankCodes, List.mem_cons, List.not_mem_nil, or_false]
  split_ifs at h <;> first | contradiction | omega

theorem isWord_of_isBlank {c : Char} (h : isBlank c = true) : isWord c = false := by
  have hlow : ∀ n < 128, (9 ≤ n && n ≤ 13 || 28 ≤ n && n ≤ 32) = true →
      isAsciiWord (Char.ofNat n) = false := by decide
  have hhigh : ∀ n ∈ blankCodes, ¬n < 128 → wordSet.contains n = false := by decide +kernel
  rw [isBlank] at h
  rw [isWord]
  split at h
  next hc => simpa [hc] using hlow c.toNat hc h
  next hc => simpa [hc] using hhigh _ (mem_blankCodes h) hc

end Text

namespace Manifest

open Text

variable {name value written rest s t : List Char}

/-! ## References -/

/-- The text is a reference to `name`, with blanks around the name or none. -/
def Refers (name written : List Char) : Prop :=
  ∃ before after, written = '#' :: '{' :: (before ++ (name ++ (after ++ ['}']))) ∧ name ≠ [] ∧
    (∀ c ∈ before, isBlank c = true) ∧ (∀ c ∈ name, isWord c = true) ∧
    ∀ c ∈ after, isBlank c = true

theorem not_isBlank_of_isWord {c : Char} (h : isWord c = true) : isBlank c = false := by
  cases hb : isBlank c with
  | false => rfl
  | true => simp [isWord_of_isBlank hb] at h

theorem reference?_of_refers (h : Refers name written) :
    reference? (written ++ rest) = some (name, rest) := by
  obtain ⟨before, after, rfl, hne, hbefore, hname, hafter⟩ := h
  obtain ⟨c, cs, rfl⟩ := List.exists_cons_of_ne_nil hne
  have hc : isBlank c = false := not_isBlank_of_isWord (hname c (by simp))
  have hbrace : isWord '}' = false ∧ isBlank '}' = false := by decide
  have hword : ∀ d ∈ after, isWord d = false := fun d hd => isWord_of_isBlank (hafter d hd)
  have hend : (after ++ '}' :: rest).takeWhile isWord = [] ∧
      (after ++ '}' :: rest).dropWhile isWord = after ++ '}' :: rest := by
    cases after with
    | nil => simp [hbrace]
    | cons d after => simp [hword d (by simp)]
  simp only [reference?, List.cons_append, List.append_assoc, List.nil_append]
  rw [List.dropWhile_append_of_pos hbefore, List.dropWhile_cons_of_neg (by simp [hc])]
  rw [← List.cons_append, List.takeWhile_append_of_pos hname, List.dropWhile_append_of_pos hname]
  rw [hend.1, hend.2, List.dropWhile_append_of_pos hafter,
    List.dropWhile_cons_of_neg (by simp [hbrace])]
  simp

theorem refers_of_reference? (h : reference? s = some (name, rest)) :
    ∃ written, s = written ++ rest ∧ Refers name written := by
  unfold reference? at h
  split at h
  case h_1 _ inner =>
    dsimp only at h
    split at h
    case h_1 c cs rest' hname hrest =>
      obtain ⟨rfl, rfl⟩ : c :: cs = name ∧ rest' = rest := by simpa using h
      refine ⟨_, ?_, inner.takeWhile isBlank,
        ((inner.dropWhile isBlank).dropWhile isWord).takeWhile isBlank, rfl, by simp,
        fun d hd => (List.mem_takeWhile_imp hd), fun d hd => ?_,
        fun d hd => (List.mem_takeWhile_imp hd)⟩
      · simp only [List.cons_append, List.append_assoc, List.nil_append]
        rw [← hrest, List.takeWhile_append_dropWhile, ← List.cons_append (a := c), ← hname,
          List.takeWhile_append_dropWhile, List.takeWhile_append_dropWhile]
      · rw [← hname] at hd
        exact List.mem_takeWhile_imp hd
    case h_2 => cases h
  case h_2 => cases h

theorem reference?_append (h : reference? s = some (name, rest)) :
    reference? (s ++ t) = some (name, rest ++ t) := by
  obtain ⟨written, rfl, hrefers⟩ := refers_of_reference? h
  rw [List.append_assoc]
  exact reference?_of_refers hrefers

theorem reference?_of_ne {c : Char} (hc : c ≠ '#') : reference? (c :: s) = none := by
  unfold reference?
  split
  · simp_all
  · rfl

/-- Only the first character of a reference is a number sign. -/
theorem Refers.exists_cons (h : Refers name written) :
    ∃ inner, written = '#' :: inner ∧ '#' ∉ inner := by
  obtain ⟨before, after, rfl, -, hbefore, hname, hafter⟩ := h
  have hsign : isBlank '#' = false ∧ isWord '#' = false := by decide
  refine ⟨_, rfl, ?_⟩
  simp only [List.mem_cons, List.mem_append, List.not_mem_nil, or_false, not_or]
  refine ⟨by decide, fun hmem => ?_, fun hmem => ?_, fun hmem => ?_, by decide⟩
  · exact absurd (hbefore _ hmem) (by simp [hsign])
  · exact absurd (hname _ hmem) (by simp [hsign])
  · exact absurd (hafter _ hmem) (by simp [hsign])

/-! ## Texts whose number signs are in order -/

/-- Every number sign of the text begins a reference. -/
def SignsRefer (s : List Char) : Prop :=
  ∀ t ∈ s.tails, t.head? = some '#' → (reference? t).isSome

instance (s : List Char) : Decidable (SignsRefer s) := by
  unfold SignsRefer
  infer_instance

theorem signsRefer_cons {c : Char} :
    SignsRefer (c :: s) ↔ (c = '#' → (reference? (c :: s)).isSome) ∧ SignsRefer s := by
  simp [SignsRefer]

theorem not_mem_of_isWord (h : ∀ c ∈ s, isWord c = true) : '#' ∉ s := fun hmem =>
  absurd (h '#' hmem) (by decide)

theorem signsRefer_of_not_mem (h : '#' ∉ s) : SignsRefer s := by
  intro t ht hhead
  have hsuffix := (List.mem_tails _ _).mp ht
  exact absurd (hsuffix.subset (List.mem_of_mem_head? hhead)) h

theorem SignsRefer.append (hs : SignsRefer s) (ht : SignsRefer t) : SignsRefer (s ++ t) := by
  induction s with
  | nil => exact ht
  | cons c s ih =>
    obtain ⟨hsign, hs⟩ := signsRefer_cons.mp hs
    refine signsRefer_cons.mpr ⟨fun hc => ?_, ih hs⟩
    obtain ⟨⟨name, rest⟩, hrest⟩ := Option.isSome_iff_exists.mp (hsign hc)
    have happend := reference?_append (t := t) hrest
    rw [List.cons_append] at happend
    simp [happend]

theorem SignsRefer.of_append (h : SignsRefer (s ++ t)) : SignsRefer t := by
  induction s with
  | nil => exact h
  | cons c s ih => exact ih (signsRefer_cons.mp h).2

theorem signsRefer_flatMap {α : Type} {f : α → List Char} {l : List α}
    (h : ∀ a ∈ l, SignsRefer (f a)) : SignsRefer (l.flatMap f) := by
  induction l with
  | nil => simp [SignsRefer]
  | cons a l ih =>
    rw [List.flatMap_cons]
    exact (h a (by simp)).append (ih fun b hb => h b (by simp [hb]))

theorem Refers.signsRefer (h : Refers name written) : SignsRefer written := by
  obtain ⟨inner, rfl, hinner⟩ := h.exists_cons
  refine signsRefer_cons.mpr ⟨fun _ => ?_, signsRefer_of_not_mem hinner⟩
  have hwhole : reference? _ = some (name, []) := reference?_of_refers h
  rw [List.append_nil] at hwhole
  simp [hwhole]

/-! ## Pieces -/

theorem names_char (c : Char) (ps : List Piece) :
    (Piece.char c :: ps).filterMap Piece.name? = ps.filterMap Piece.name? :=
  rfl

theorem names_reference (name written : List Char) (ps : List Piece) :
    (Piece.reference name written :: ps).filterMap Piece.name? =
      name :: ps.filterMap Piece.name? :=
  rfl

@[simp] theorem pieces_nil : pieces [] = [] := by
  rw [pieces]

theorem pieces_append_of_refers (h : Refers name written) :
    pieces (written ++ rest) = .reference name written :: pieces rest := by
  obtain ⟨inner, rfl, -⟩ := h.exists_cons
  have hread : reference? _ = some (name, rest) := reference?_of_refers h
  rw [List.cons_append] at hread ⊢
  rw [pieces]
  split
  case h_1 found after hfound =>
    obtain ⟨rfl, rfl⟩ : name = found ∧ rest = after := by simpa [hread] using hfound
    have hlength : inner.length + rest.length + 1 - rest.length = inner.length + 1 := by omega
    simp [hlength]
  case h_2 hnone => simp [hread] at hnone

theorem pieces_cons_of_ne {c : Char} (hc : c ≠ '#') : pieces (c :: s) = .char c :: pieces s := by
  rw [pieces]
  split
  case h_1 hsome => simp [reference?_of_ne hc] at hsome
  case h_2 => rfl

/-- Without a number sign there are only characters. -/
theorem pieces_of_not_mem (h : '#' ∉ s) : pieces s = s.map .char := by
  induction s with
  | nil => simp
  | cons c s ih =>
    obtain ⟨hc, hs⟩ : '#' ≠ c ∧ '#' ∉ s := by simpa using h
    rw [pieces_cons_of_ne hc.symm, ih hs, List.map_cons]

/-- A text whose number signs all begin references is empty, or begins with another character, or
with a reference. -/
theorem SignsRefer.cases (h : SignsRefer s) :
    s = [] ∨ (∃ c rest, s = c :: rest ∧ c ≠ '#' ∧ SignsRefer rest) ∨
      ∃ name written rest, s = written ++ rest ∧ Refers name written ∧ SignsRefer rest := by
  cases s with
  | nil => exact .inl rfl
  | cons c rest =>
    obtain ⟨hsign, hrest⟩ := signsRefer_cons.mp h
    by_cases hc : c = '#'
    · obtain ⟨⟨name, after⟩, hread⟩ := Option.isSome_iff_exists.mp (hsign hc)
      obtain ⟨written, heq, hrefers⟩ := refers_of_reference? hread
      exact .inr (.inr ⟨name, written, after, heq, hrefers, (heq ▸ h).of_append⟩)
    · exact .inr (.inl ⟨c, rest, rfl, hc, hrest⟩)

/-- Induction over the pieces of a text. -/
theorem SignsRefer.induction {motive : ∀ s, SignsRefer s → Prop} (nil : ∀ h, motive [] h)
    (char : ∀ c s h hs, c ≠ '#' → motive s hs → motive (c :: s) h)
    (reference : ∀ name written s h hs, Refers name written → motive s hs →
      motive (written ++ s) h)
    (h : SignsRefer s) : motive s h := by
  induction hn : s.length using Nat.strong_induction_on generalizing s with
  | _ n ih =>
    obtain rfl | ⟨c, rest, rfl, hc, hrest⟩ | ⟨name, written, rest, rfl, hrefers, hrest⟩ := h.cases
    · exact nil h
    · exact char c rest h hrest hc (ih _ (by simp [← hn]) hrest rfl)
    · obtain ⟨inner, rfl, -⟩ := hrefers.exists_cons
      exact reference name _ rest h hrest hrefers
        (ih _ (by simp only [← hn, List.length_append, List.length_cons]; omega) hrest rfl)

theorem pieces_append (hs : SignsRefer s) (t : List Char) :
    pieces (s ++ t) = pieces s ++ pieces t := by
  induction hs using SignsRefer.induction with
  | nil _ => simp
  | char c s _ _ hc ih => rw [List.cons_append, pieces_cons_of_ne hc, pieces_cons_of_ne hc, ih]; rfl
  | reference name written s _ _ h ih =>
    rw [List.append_assoc, pieces_append_of_refers h, pieces_append_of_refers h, ih]
    rfl

theorem pieces_flatMap {α : Type} {f : α → List Char} {l : List α}
    (h : ∀ a ∈ l, SignsRefer (f a)) : pieces (l.flatMap f) = l.flatMap fun a => pieces (f a) := by
  induction l with
  | nil => simp
  | cons a l ih =>
    rw [List.flatMap_cons, List.flatMap_cons, pieces_append (h a (by simp)),
      ih fun b hb => h b (by simp [hb])]

/-- The texts of the pieces are the text. -/
theorem flatMap_text_pieces (h : SignsRefer s) : (pieces s).flatMap Piece.text = s := by
  induction h using SignsRefer.induction with
  | nil _ => simp
  | char c s _ _ hc ih => rw [pieces_cons_of_ne hc, List.flatMap_cons, ih]; rfl
  | reference name written s _ _ h ih =>
    rw [pieces_append_of_refers h, List.flatMap_cons, ih]
    rfl

/-- The text of a piece has that piece alone. -/
theorem pieces_text (h : SignsRefer s) {piece : Piece} (hmem : piece ∈ pieces s) :
    SignsRefer piece.text ∧ pieces piece.text = [piece] := by
  induction h using SignsRefer.induction with
  | nil _ => simp at hmem
  | char c s _ _ hc ih =>
    rw [pieces_cons_of_ne hc, List.mem_cons] at hmem
    obtain rfl | hmem := hmem
    · exact ⟨signsRefer_of_not_mem (by simpa [Piece.text] using hc.symm),
        by simp [Piece.text, pieces_cons_of_ne hc]⟩
    · exact ih hmem
  | reference name written s _ _ h ih =>
    rw [pieces_append_of_refers h, List.mem_cons] at hmem
    obtain rfl | hmem := hmem
    · refine ⟨h.signsRefer, ?_⟩
      have hpieces : pieces _ = .reference name written :: pieces [] := pieces_append_of_refers h
      simpa [Piece.text] using hpieces
    · exact ih hmem

/-- The name in a reference is made of word characters. -/
theorem isWord_of_mem_references (hs : SignsRefer s) (hmem : name ∈ references s) :
    ∀ c ∈ name, isWord c = true := by
  induction hs using SignsRefer.induction with
  | nil _ => simp [references] at hmem
  | char c s _ _ hc ih =>
    exact ih (by rwa [references, pieces_cons_of_ne hc, names_char] at hmem)
  | reference name' written s _ _ h ih =>
    rw [references, pieces_append_of_refers h, names_reference] at hmem
    obtain rfl | hmem := List.mem_cons.mp hmem
    · obtain ⟨_, _, _, _, _, hword, _⟩ := h
      exact hword
    · exact ih hmem

/-! ## Putting a constant in -/

/-- The pieces that stand for a piece after `value` is put in for `name`. -/
def putPiece (name value : List Char) (piece : Piece) : List Piece :=
  if piece.name? = some name then pieces value else [piece]

theorem signsRefer_putConstant (hs : SignsRefer s) (hvalue : SignsRefer value) :
    SignsRefer (putConstant name value s) := by
  refine signsRefer_flatMap fun piece hmem => ?_
  split
  · exact hvalue
  · exact (pieces_text hs hmem).1

theorem pieces_putConstant (hs : SignsRefer s) (hvalue : SignsRefer value) :
    pieces (putConstant name value s) = (pieces s).flatMap (putPiece name value) := by
  rw [putConstant, pieces_flatMap]
  · refine List.flatMap_congr fun piece hmem => ?_
    unfold putPiece
    split
    · rfl
    · exact (pieces_text hs hmem).2
  · intro piece hmem
    split
    · exact hvalue
    · exact (pieces_text hs hmem).1

/-- Putting a constant in takes its name away from the references and brings its own references. -/
theorem mem_references_putConstant (hs : SignsRefer s) (hvalue : SignsRefer value)
    {other : List Char} (hmem : other ∈ references (putConstant name value s)) :
    (other ∈ references s ∧ other ≠ name) ∨ (name ∈ references s ∧ other ∈ references value) := by
  simp only [references, pieces_putConstant hs hvalue, List.mem_filterMap, List.mem_flatMap] at hmem
  obtain ⟨piece, ⟨from_, hfrom, hpiece⟩, hother⟩ := hmem
  unfold putPiece at hpiece
  split at hpiece
  next hname =>
    exact .inr ⟨List.mem_filterMap.mpr ⟨from_, hfrom, hname⟩,
      List.mem_filterMap.mpr ⟨piece, hpiece, hother⟩⟩
  next hname =>
    obtain rfl : piece = from_ := by simpa using hpiece
    refine .inl ⟨List.mem_filterMap.mpr ⟨piece, hfrom, hother⟩, ?_⟩
    rintro rfl
    exact hname hother

end Manifest

end StepTrace
