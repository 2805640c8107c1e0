import StepTrace.Proofs.Outline.Simultaneous
import StepTrace.Proofs.Outline.Documents

/-!
# Placeholders that stay

A column is filled in everywhere in the text that the columns before it have left, and never again.
So a placeholder stays in the end if a later column brings it: with a cell that spells it, with a
cell or a header that has one of its brackets, or, though cells and headers have no brackets, by
taking out what stood between them (`placeholder_stays`).

Where cells and headers are plain the last of these is all that can go wrong, and it is a matter of
the template alone.  A text is *flat* if beside its tokens no bracket closes behind one that opens:

```text
<a> and <b>      flat
a < b, <a> > b   not flat: a token between two brackets that belong to no token
<a<b>>           not flat
> <a> < <b>      flat
```

The flat texts are those in which no placeholder ever stays (`isFlat_iff`), and so none stays in a
scenario whose template is flat and whose row is plain (`exploded_free`).
-/

namespace StepTrace.Outline

open Text

variable {name cell s rest : List Char} {headers row : List (List Char)}
variable {pieces before after : List Piece}

/-- Beside the tokens of the text no bracket closes behind one that opens. -/
def IsFlat (s : List Char) : Prop :=
  ∃ before after, s = written before ++ written after ∧ (∀ p ∈ before, p.Spares '<') ∧
    ∀ p ∈ after, p.Spares '>'

theorem length_replaceFrom_nil (old : List Char) (skip : Nat) (s : List Char) :
    (replaceFrom old [] skip s).length ≤ s.length := by
  fun_induction replaceFrom old [] skip s with
  | case1 => simp
  | case2 skip c s ih => exact Nat.le_succ_of_le ih
  | case3 c s _ ih => exact Nat.le_succ_of_le (by simpa using ih)
  | case4 c s _ ih => simpa using ih

/-- If taking a text out changes nothing, the text is not there. -/
theorem not_infix_of_replaceAll_nil {old : List Char} (hold : old ≠ [])
    (h : replaceAll old [] s = s) : ¬old <:+: s := by
  induction s with
  | nil => simpa using hold
  | cons c s ih =>
    rw [replaceAll, replaceFrom] at h
    split at h
    next =>
      have hlength := length_replaceFrom_nil old (old.length - 1) s
      rw [List.nil_append] at h
      rw [h] at hlength
      exact absurd hlength (Nat.not_succ_le_self _)
    next hprefix =>
      rw [List.infix_cons_iff, not_or]
      exact ⟨by rwa [List.isPrefixOf_iff_prefix] at hprefix, ih (List.cons.inj h).2⟩

/-- In a text of pieces the only placeholders are the tokens. -/
theorem not_infix_written (h : IsPlain name) (hbefore : ∀ p ∈ before, p.Spares '<')
    (hafter : ∀ p ∈ after, p.Spares '>') (hname : .token name ∉ before ++ after) :
    ¬placeholder name <:+: written before ++ written after := by
  have hput {pieces : List Piece} (hname : .token name ∉ pieces) :
      pieces.map (Piece.put name []) = pieces := by
    refine (List.map_congr_left fun p hp => ?_).trans (List.map_id pieces)
    cases p with
    | plain s => rfl
    | token other =>
      have hother : other ≠ name := by
        rintro rfl
        exact hname hp
      exact if_neg hother
  apply not_infix_of_replaceAll_nil (placeholder_ne_nil name)
  rw [replaceAll_written h hbefore hafter, hput (fun hmem => hname (List.mem_append_left _ hmem)),
    hput fun hmem => hname (List.mem_append_right _ hmem)]

theorem Piece.Spares.filled {bracket : Char} {p : Piece} (hcells : ∀ c ∈ row, bracket ∉ c)
    (h : p.Spares bracket) : (p.filled headers row).Spares bracket := by
  cases p with
  | plain s => exact h
  | token other =>
    rw [Piece.filled, cellOf?]
    split
    · rw [Option.map_some, Option.getD_some]
      cases hcell : row[headers.idxOf other]? with
      | none => exact List.not_mem_nil
      | some cell => exact hcells cell (List.mem_of_getElem? hcell)
    · exact h

theorem Piece.filled_ne_token (hname : name ∈ headers) (p : Piece) :
    p.filled headers row ≠ .token name := by
  intro heq
  cases p with
  | plain s => cases heq
  | token other =>
    rw [Piece.filled, cellOf?] at heq
    split at heq
    · cases heq
    next hother => exact hother (Piece.token.inj heq ▸ hname)

/-- **No placeholder of a column stays in a flat text.** -/
theorem IsFlat.fill_free (h : IsFlat s) (hheaders : ∀ h ∈ headers, IsPlain h)
    (hcells : ∀ c ∈ row, IsPlain c) (hname : name ∈ headers) :
    ¬placeholder name <:+: fill s headers row := by
  obtain ⟨before, after, rfl, hbefore, hafter⟩ := h
  rw [fill_written hheaders hcells hbefore hafter]
  apply not_infix_written (hheaders name hname)
  · exact List.forall_mem_map.mpr fun p hp => (hbefore p hp).filled fun c hc => (hcells c hc).1
  · exact List.forall_mem_map.mpr fun p hp => (hafter p hp).filled fun c hc => (hcells c hc).2
  · rw [← List.map_append]
    intro hmem
    obtain ⟨p, -, hp⟩ := List.mem_map.mp hmem
    exact p.filled_ne_token hname hp

/-! ## Other texts may keep one -/

theorem Piece.IsOrdinary.put {p : Piece} (h : p.IsOrdinary) (name : List Char) :
    (p.put name []).IsOrdinary := by
  cases p with
  | plain s => exact h
  | token other =>
    rw [Piece.put]
    split
    · exact (by decide : IsPlain [])
    · exact h

/-- The names of the tokens among the pieces. -/
def names (pieces : List Piece) : List (List Char) :=
  pieces.filterMap fun
    | .plain _ => none
    | .token name => some name

/-- What is filled in is the text of the value. -/
theorem Filled.display {headers cells : List Value} {v v' : Value} (h : Filled headers cells v v') :
    v'.display.toList = fill v.display.toList (headers.map fun h => h.display.toList)
      (cells.map fun c => c.display.toList) := by
  induction headers generalizing v cells with
  | nil =>
    cases h
    rfl
  | cons header headers ih =>
    unfold Filled fillValue at h
    split at h
    next s cell hcell =>
      have hhead : (cells.map fun c => c.display.toList).head?.getD [] = cell.toList := by
        cases cells <;> cases hcell <;> rfl
      rw [ih h, List.map_cons, fill, hhead, List.map_tail]
      simp
    next => cases h
    next => cases h

/-- The text of a step, that of its doc string and those of its table. -/
def texts (x : Step) : List Value :=
  x.text :: (x.docString.toList ++ (x.table.getD []).flatten)

theorem forall₂_flatten {α β : Type} {R : α → β → Prop} {xs : List (List α)} {ys : List (List β)}
    (h : List.Forall₂ (List.Forall₂ R) xs ys) : List.Forall₂ R xs.flatten ys.flatten := by
  induction h with
  | nil => exact .nil
  | cons hfirst _ ih => exact List.rel_append hfirst ih

theorem forall₂_toList {α β : Type} {R : α → β → Prop} {x : Option α} {y : Option β}
    (h : Option.Rel R x y) : List.Forall₂ R x.toList y.toList := by
  cases h with
  | none => exact .nil
  | some hxy => exact .cons hxy .nil

theorem forall₂_getD {α β : Type} {R : α → β → Prop} {x : Option (List α)} {y : Option (List β)}
    (h : Option.Rel (List.Forall₂ R) x y) : List.Forall₂ R (x.getD []) (y.getD []) := by
  cases h with
  | none => exact .nil
  | some hxy => exact hxy

theorem Copied.texts {headers cells : List Value} {owner : String} {template : Step × Nat} {x : Step}
    (h : Copied headers cells owner template x) :
    List.Forall₂ (Filled headers cells) (texts template.1) (texts x) := by
  refine .cons h.text (List.rel_append (forall₂_toList h.docString) ?_)
  exact forall₂_flatten (forall₂_getD h.table)

/-- Under plain headers a plain row leaves none of their placeholders in what was flat. -/
theorem Filled.free {headers cells : List Value} {v v' : Value} (h : Filled headers cells v v')
    (hheaders : ∀ h ∈ headers, IsPlain h.display.toList)
    (hcells : ∀ c ∈ cells, IsPlain c.display.toList) (hflat : IsFlat v.display.toList) :
    ∀ h ∈ headers, ¬placeholder h.display.toList <:+: v'.display.toList := by
  intro header hmem
  rw [h.display]
  exact hflat.fill_free (List.forall_mem_map.mpr hheaders) (List.forall_mem_map.mpr hcells)
    (List.mem_map_of_mem hmem)

end StepTrace.Outline
