import StepTrace.Proofs.Manifest.Pieces

/-!
# Where the texts of constants meet the pattern

A number sign that begins no reference might come to begin one when a constant is put in behind it.
In a `Sealed` text none can: another character follows, with which no reference goes on.  Such a text
keeps its pieces when constants are put in (`Sealed.pieces_putConstant`), whether all of its number
signs begin references or not.
-/

namespace StepTrace.Manifest

open Text

variable {c : Char} {name value written s t : List Char}

/-! ## Texts by their pieces -/

theorem reference?_sign (h : s.head? ≠ some '{') : reference? ('#' :: s) = none := by
  unfold reference?
  split
  next heq =>
    cases heq
    exact absurd rfl h
  next => rfl

theorem pieces_cons (h : reference? (c :: s) = none) : pieces (c :: s) = .char c :: pieces s := by
  rw [pieces]
  split
  next hsome => cases h.symm.trans hsome
  next => rfl

/-- Induction over the pieces of any text. -/
@[elab_as_elim]
theorem pieces_induction {motive : List Char → Prop} (nil : motive [])
    (char : ∀ c s, reference? (c :: s) = none → motive s → motive (c :: s))
    (reference : ∀ name written s, Refers name written → motive s → motive (written ++ s))
    (s : List Char) : motive s := by
  induction hn : s.length using Nat.strong_induction_on generalizing s with
  | _ n ih =>
    cases s with
    | nil => exact nil
    | cons c rest =>
      cases hread : reference? (c :: rest) with
      | none => exact char c rest hread (ih _ (by simp [← hn]) rest rfl)
      | some found =>
        obtain ⟨name, after⟩ := found
        have hlength := length_of_reference? hread
        obtain ⟨written, heq, hrefers⟩ := refers_of_reference? hread
        rw [heq]
        exact reference name written after hrefers (ih _ (by omega) after rfl)

/-- The texts of the pieces are the text. -/
theorem flatMap_pieces (s : List Char) : (pieces s).flatMap Piece.text = s := by
  induction s using pieces_induction with
  | nil => simp
  | char c s hnone ih =>
    rw [pieces_cons hnone, List.flatMap_cons, ih]
    rfl
  | reference name written s h ih =>
    rw [pieces_append_of_refers h, List.flatMap_cons, ih]
    rfl

theorem refers_of_mem_pieces (hmem : .reference name written ∈ pieces s) : Refers name written := by
  induction s using pieces_induction with
  | nil => simp at hmem
  | char c s hnone ih =>
    rw [pieces_cons hnone] at hmem
    exact ih (by simpa using hmem)
  | reference name' written' s h ih =>
    rw [pieces_append_of_refers h] at hmem
    obtain heq | hmem := List.mem_cons.mp hmem
    · cases heq
      exact h
    · exact ih hmem

/-! ## Sealed texts -/

/-- A number sign that begins no reference stands at the end of the text, or neither a number sign
nor a brace follows it. -/
def Sealed (s : List Char) : Prop :=
  ∀ t ∈ s.tails, t.head? = some '#' →
    (reference? t).isSome ∨ t.tail.head? ∉ [some '#', some '{']

instance (s : List Char) : Decidable (Sealed s) := by
  unfold Sealed
  infer_instance

theorem sealed_cons : Sealed (c :: s) ↔
    (c = '#' → (reference? (c :: s)).isSome ∨ s.head? ∉ [some '#', some '{']) ∧ Sealed s := by
  simp only [Sealed, List.tails_cons, List.forall_mem_cons, List.head?_cons, Option.some.injEq,
    List.tail_cons]

theorem sealed_nil : Sealed [] := by
  simp [Sealed]

theorem SignsRefer.sealed (h : SignsRefer s) : Sealed s := fun t ht hhead => .inl (h t ht hhead)

theorem Sealed.of_append (h : Sealed (s ++ t)) : Sealed t := by
  induction s with
  | nil => exact h
  | cons c s ih => exact ih (sealed_cons.mp h).2

/-- The character behind a number sign that begins no reference begins none either. -/
theorem Sealed.head?_ne (h : Sealed (c :: s)) (hnone : reference? (c :: s) = none) (hc : c = '#') :
    s.head? ≠ some '#' ∧ s.head? ≠ some '{' := by
  have hnot := ((sealed_cons.mp h).1 hc).resolve_left (by simp [hnone])
  simpa using hnot

/-- A text whose last number sign is followed by something can be cut from what stands behind it. -/
theorem Sealed.reference?_append (h : Sealed (c :: s)) (hlast : (c :: s).getLast? ≠ some '#')
    (hnone : reference? (c :: s) = none) (t : List Char) : reference? (c :: (s ++ t)) = none := by
  by_cases hc : c = '#'
  · subst hc
    cases s with
    | nil => exact absurd rfl hlast
    | cons d s => exact reference?_sign (h.head?_ne hnone rfl).2
  · exact reference?_of_ne hc

theorem getLast?_ne_of_cons (hlast : (c :: s).getLast? ≠ some '#') : s.getLast? ≠ some '#' := by
  cases s with
  | nil => simp
  | cons d s => rwa [List.getLast?_cons_cons] at hlast

theorem getLast?_ne_of_append (hlast : (s ++ t).getLast? ≠ some '#') : t.getLast? ≠ some '#' := by
  induction s with
  | nil => exact hlast
  | cons c s ih => exact ih (getLast?_ne_of_cons hlast)

theorem Sealed.pieces_append (hs : Sealed s) (hlast : s.getLast? ≠ some '#') (t : List Char) :
    pieces (s ++ t) = pieces s ++ pieces t := by
  induction s using pieces_induction with
  | nil => simp
  | char c s hnone ih =>
    rw [List.cons_append, pieces_cons hnone, pieces_cons (hs.reference?_append hlast hnone t),
      ih (sealed_cons.mp hs).2 (getLast?_ne_of_cons hlast), List.cons_append]
  | reference name written s h ih =>
    rw [List.append_assoc, pieces_append_of_refers h, pieces_append_of_refers h,
      ih hs.of_append (getLast?_ne_of_append hlast), List.cons_append]

theorem Sealed.append (hs : Sealed s) (hlast : s.getLast? ≠ some '#') (ht : Sealed t) :
    Sealed (s ++ t) := by
  induction s with
  | nil => exact ht
  | cons c s ih =>
    obtain ⟨hsign, htail⟩ := sealed_cons.mp hs
    refine sealed_cons.mpr ⟨fun hc => ?_, ih htail (getLast?_ne_of_cons hlast)⟩
    obtain hread | hhead := hsign hc
    · obtain ⟨⟨name, rest⟩, hrest⟩ := Option.isSome_iff_exists.mp hread
      exact .inl (Option.isSome_of_eq_some (Manifest.reference?_append (t := t) hrest))
    · cases s with
      | nil => exact absurd (by rw [hc]; rfl) hlast
      | cons d s => exact .inr hhead

theorem Refers.getLast? (h : Refers name written) : written.getLast? = some '}' := by
  obtain ⟨before, after, rfl, -⟩ := h
  have heq : '#' :: '{' :: (before ++ (name ++ (after ++ ['}']))) =
      ('#' :: '{' :: (before ++ (name ++ after))) ++ ['}'] := by simp
  rw [heq, List.getLast?_concat]

/-! ## Putting constants in -/

theorem putConstant_char (hnone : reference? (c :: s) = none) :
    putConstant name value (c :: s) = c :: putConstant name value s := by
  rw [putConstant, pieces_cons hnone, List.flatMap_cons]
  rfl

theorem putConstant_reference {name' : List Char} (h : Refers name' written) :
    putConstant name value (written ++ s) =
      (if name' = name then value else written) ++ putConstant name value s := by
  have hname : (Piece.reference name' written).name? = some name ↔ name' = name := by
    simp [Piece.name?]
  rw [putConstant, pieces_append_of_refers h, List.flatMap_cons]
  simp only [hname]
  rfl

theorem head?_putConstant (h : s.head? ≠ some '#') :
    (putConstant name value s).head? = s.head? := by
  cases s with
  | nil => simp [putConstant]
  | cons c s =>
    have hc : c ≠ '#' := by simpa using h
    rw [putConstant_char (reference?_of_ne hc)]
    rfl

/-- A character that begins no reference begins none behind which constants have been put in. -/
theorem Sealed.reference?_putConstant (h : Sealed (c :: s)) (hnone : reference? (c :: s) = none) :
    reference? (c :: putConstant name value s) = none := by
  by_cases hc : c = '#'
  · obtain ⟨hsign, hbrace⟩ := h.head?_ne hnone hc
    rw [hc]
    exact reference?_sign (by rwa [head?_putConstant hsign])
  · exact reference?_of_ne hc

theorem Sealed.putConstant (hs : Sealed s) (hvalue : Sealed value)
    (hlast : value.getLast? ≠ some '#') : Sealed (putConstant name value s) := by
  induction s using pieces_induction with
  | nil =>
    rw [Manifest.putConstant, pieces_nil]
    exact sealed_nil
  | char c s hnone ih =>
    rw [putConstant_char hnone]
    refine sealed_cons.mpr ⟨fun hc => .inr ?_, ih (sealed_cons.mp hs).2⟩
    obtain ⟨hsign, hbrace⟩ := hs.head?_ne hnone hc
    rw [head?_putConstant hsign]
    simp [hsign, hbrace]
  | reference name' written s h ih =>
    rw [putConstant_reference h]
    split
    · exact hvalue.append hlast (ih hs.of_append)
    · exact h.signsRefer.sealed.append (by simp [h.getLast?]) (ih hs.of_append)

theorem Sealed.pieces_putConstant (hs : Sealed s) (hvalue : Sealed value)
    (hlast : value.getLast? ≠ some '#') :
    pieces (Manifest.putConstant name value s) = (pieces s).flatMap (putPiece name value) := by
  induction s using pieces_induction with
  | nil => simp [Manifest.putConstant]
  | char c s hnone ih =>
    rw [putConstant_char hnone, Manifest.pieces_cons (hs.reference?_putConstant hnone),
      ih (sealed_cons.mp hs).2, Manifest.pieces_cons hnone, List.flatMap_cons]
    rfl
  | reference name' written s h ih =>
    have hname : (Piece.reference name' written).name? = some name ↔ name' = name := by
      simp [Piece.name?]
    rw [putConstant_reference h, pieces_append_of_refers h, List.flatMap_cons, putPiece]
    simp only [hname]
    split
    · rw [hvalue.pieces_append hlast, ih hs.of_append]
    · rw [pieces_append_of_refers h, ih hs.of_append]
      rfl

end StepTrace.Manifest
