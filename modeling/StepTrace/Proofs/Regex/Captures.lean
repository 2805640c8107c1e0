import StepTrace.Manifest.Constant
import StepTrace.Proofs.Regex.Openings

/-!
# How capturing groups are rewritten

`convertCaptures` goes over the text of a pattern twice, first for named groups and then for plain
ones.  Both times it looks at one character before a parenthesis, so that what it makes of a text
depends on whether a backslash stands before it; `converted` takes that into account.  Away from
opening parentheses the text stays as it is, token by token (`converted_written`); and whatever it
begins with, it goes on beginning with the same token (`sameToken_converted`).
-/

namespace StepTrace.Manifest

open Text Regex

/-- The text with its capturing groups written as non-capturing ones; `escaped` says whether a
backslash stands before it. -/
def converted (escaped : Bool) (s : List Char) : List Char :=
  dropPlainGroups escaped (dropGroupNames escaped s)

variable {c : Char} {s rest : List Char} {escaped : Bool} {t : Token} {ts us : List Token}

/-! ## Named groups -/

theorem exists_of_afterNamedGroup? (h : afterNamedGroup? s = some rest) :
    ∃ name : List Char, s = '(' :: '?' :: 'P' :: '<' :: (name ++ '>' :: rest) ∧ name ≠ [] ∧
      name.all isWord = true := by
  unfold afterNamedGroup? at h
  split at h
  next inner =>
    split at h
    next d name htake hdrop =>
      cases h
      refine ⟨inner.takeWhile isWord, ?_, by simp [htake], List.all_takeWhile⟩
      rw [← hdrop, List.takeWhile_append_dropWhile]
    next => cases h
  next => cases h

theorem afterNamedGroup?_named {name : List Char} (hname : name ≠ [])
    (hword : name.all isWord = true) :
    afterNamedGroup? ('(' :: '?' :: 'P' :: '<' :: (name ++ '>' :: rest)) = some rest := by
  have hstop : isWord '>' = false := by decide
  have hall : ∀ d ∈ name, isWord d = true := List.all_eq_true.mp hword
  have htake : (name ++ '>' :: rest).takeWhile isWord = name := by
    rw [List.takeWhile_append_of_pos hall, List.takeWhile_cons_of_neg (by simp [hstop]),
      List.append_nil]
  have hdrop : (name ++ '>' :: rest).dropWhile isWord = '>' :: rest := by
    rw [List.dropWhile_append_of_pos hall, List.dropWhile_cons_of_neg (by simp [hstop])]
  obtain ⟨d, name, rfl⟩ := List.exists_cons_of_ne_nil hname
  simp only [afterNamedGroup?, htake, hdrop]

theorem dropGroupNames_nil (escaped : Bool) : dropGroupNames escaped [] = [] := by
  rw [dropGroupNames]

theorem dropGroupNames_named (h : afterNamedGroup? s = some rest) :
    dropGroupNames false s = '(' :: '?' :: ':' :: dropGroupNames false rest := by
  obtain ⟨name, rfl, -⟩ := exists_of_afterNamedGroup? h
  rw [dropGroupNames]
  split
  next heq => rw [Option.some.inj (h.symm.trans heq)]
  next heq => cases h.symm.trans heq

theorem dropGroupNames_cons (h : escaped = true ∨ afterNamedGroup? (c :: s) = none) :
    dropGroupNames escaped (c :: s) = c :: dropGroupNames (c == '\\') s := by
  have hnone : (if escaped then none else afterNamedGroup? (c :: s)) = none := by
    obtain rfl | h := h
    · rfl
    · split
      · rfl
      · exact h
  rw [dropGroupNames]
  split
  next heq => cases hnone.symm.trans heq
  next => rfl

theorem head?_dropGroupNames (escaped : Bool) (s : List Char) :
    (dropGroupNames escaped s).head? = s.head? := by
  cases s with
  | nil => rw [dropGroupNames_nil]
  | cons c s =>
    by_cases h : escaped = true ∨ afterNamedGroup? (c :: s) = none
    · rw [dropGroupNames_cons h]
      rfl
    · obtain ⟨hescaped, hsome⟩ := not_or.mp h
      obtain ⟨rest, hrest⟩ := Option.ne_none_iff_exists'.mp hsome
      obtain rfl : escaped = false := by simpa using hescaped
      obtain ⟨name, heq, -⟩ := exists_of_afterNamedGroup? hrest
      rw [dropGroupNames_named hrest, heq]
      rfl

/-! ## Plain groups -/

theorem dropPlainGroups_paren (h : s.head? ≠ some '?') :
    dropPlainGroups false ('(' :: s) = '(' :: '?' :: ':' :: dropPlainGroups false s :=
  if_pos ⟨rfl, rfl, h⟩

theorem dropPlainGroups_cons (h : c = '(' → escaped = true ∨ s.head? = some '?') :
    dropPlainGroups escaped (c :: s) = c :: dropPlainGroups (c == '\\') s := by
  refine if_neg ?_
  rintro ⟨hc, hescaped, hhead⟩
  rcases h hc with rfl | hmark
  · cases hescaped
  · exact hhead hmark

/-! ## Single characters -/

@[simp] theorem converted_nil (escaped : Bool) : converted escaped [] = [] :=
  congrArg (dropPlainGroups escaped) (dropGroupNames_nil escaped)

/-- A character that opens nothing stays. -/
theorem converted_cons (h : c ≠ '(' ∨ escaped = true) :
    converted escaped (c :: s) = c :: converted (c == '\\') s := by
  have hnames : dropGroupNames escaped (c :: s) = c :: dropGroupNames (c == '\\') s := by
    refine dropGroupNames_cons (h.symm.imp_right fun hc => ?_)
    refine Option.eq_none_iff_forall_not_mem.mpr fun rest hrest => ?_
    obtain ⟨name, heq, -⟩ := exists_of_afterNamedGroup? hrest
    exact hc (List.cons.inj heq).1
  change dropPlainGroups escaped (dropGroupNames escaped (c :: s)) = _
  rw [hnames, dropPlainGroups_cons fun hc => .inl (h.resolve_left fun hne => hne hc)]
  rfl

/-- A plain group. -/
theorem converted_plain (h : s.head? ≠ some '?') :
    converted false ('(' :: s) = '(' :: '?' :: ':' :: converted false s := by
  have hnone : afterNamedGroup? ('(' :: s) = none := by
    refine Option.eq_none_iff_forall_not_mem.mpr fun rest hrest => ?_
    obtain ⟨name, heq, -⟩ := exists_of_afterNamedGroup? hrest
    exact h (by rw [(List.cons.inj heq).2]; rfl)
  change dropPlainGroups false (dropGroupNames false ('(' :: s)) = _
  rw [dropGroupNames_cons (.inr hnone), dropPlainGroups_paren (by rwa [head?_dropGroupNames])]
  rfl

/-- A named group. -/
theorem converted_named {name : List Char} (hname : name ≠ []) (hword : name.all isWord = true) :
    converted false ('(' :: '?' :: 'P' :: '<' :: (name ++ '>' :: s)) =
      '(' :: '?' :: ':' :: converted false s := by
  change dropPlainGroups false (dropGroupNames false _) = _
  rw [dropGroupNames_named (afterNamedGroup?_named hname hword), dropPlainGroups_cons fun _ => .inr rfl,
    dropPlainGroups_cons (by simp), dropPlainGroups_cons (by simp)]
  rfl

/-- A parenthesis that begins neither. -/
theorem converted_kept (h : s.head? = some '?') (hnone : afterNamedGroup? ('(' :: s) = none) :
    converted escaped ('(' :: s) = '(' :: converted false s := by
  change dropPlainGroups escaped (dropGroupNames escaped ('(' :: s)) = _
  rw [dropGroupNames_cons (.inr hnone),
    dropPlainGroups_cons fun _ => .inr (by rw [head?_dropGroupNames, h])]
  rfl

/-- What becomes of an opening parenthesis: it is kept, or its group loses its number. -/
theorem converted_paren (escaped : Bool) (s : List Char) :
    converted escaped ('(' :: s) = '(' :: converted false s ∨
      escaped = false ∧ ∃ rest, converted escaped ('(' :: s) = '(' :: '?' :: ':' :: converted false rest ∧
        (s.head? ≠ some '?' ∧ rest = s ∨ afterNamedGroup? ('(' :: s) = some rest) := by
  cases escaped with
  | true => exact .inl (converted_cons (.inr rfl))
  | false =>
    by_cases hhead : s.head? = some '?'
    · cases hnamed : afterNamedGroup? ('(' :: s) with
      | none => exact .inl (converted_kept hhead hnamed)
      | some rest =>
        obtain ⟨name, heq, hname, hword⟩ := exists_of_afterNamedGroup? hnamed
        obtain rfl := (List.cons.inj heq).2
        exact .inr ⟨rfl, rest, converted_named hname hword, .inr rfl⟩
    · exact .inr ⟨rfl, s, converted_plain hhead, .inl ⟨hhead, rfl⟩⟩

/-! ## Tokens -/

theorem converted_chars (ht : t ≠ .plain '\\') (hparen : t ≠ .plain '(') :
    converted escaped (t.chars ++ s) = t.chars ++ converted (t == .escaped '\\') s := by
  cases t with
  | plain c =>
    have hc : (c == '\\') = false := by simpa using ht
    have heq : converted escaped (c :: s) = c :: converted (c == '\\') s :=
      converted_cons (.inl fun h => hparen (h ▸ rfl))
    rw [hc] at heq
    exact heq
  | escaped c =>
    have heq : converted escaped ('\\' :: c :: s) = '\\' :: c :: converted (c == '\\') s := by
      rw [converted_cons (.inl (by decide)), converted_cons (.inr (by decide))]
    have hflag : (Token.escaped c == .escaped '\\') = (c == '\\') := by
      rw [Bool.eq_iff_iff]
      simp
    rw [hflag]
    exact heq

/-- Tokens that are no opening parentheses stay. -/
theorem converted_written (hts : ∀ t ∈ ts, t ≠ .plain '\\') (hparen : .plain '(' ∉ ts) :
    converted escaped (written ts ++ s) = written ts ++ converted (endsSlashed escaped ts) s := by
  induction ts generalizing escaped with
  | nil => rfl
  | cons t ts ih =>
    simp only [List.mem_cons, not_or] at hparen
    rw [written_cons, List.append_assoc,
      converted_chars (hts t (by simp)) (Ne.symm hparen.1),
      ih (fun u hu => hts u (List.mem_cons_of_mem _ hu)) hparen.2, List.append_assoc]
    rfl

/-- The text begins with the same token as before. -/
theorem sameToken_converted (escaped : Bool) (s : List Char) :
    SameToken s (converted escaped s) := by
  cases s with
  | nil => rw [converted_nil]; rfl
  | cons c s =>
    by_cases hparen : c = '('
    · subst hparen
      obtain h | ⟨-, rest, h, -⟩ := converted_paren escaped s <;> rw [h] <;> rfl
    · rw [converted_cons (.inl hparen)]
      by_cases hslash : c = '\\'
      · subst hslash
        cases s with
        | nil =>
          rw [converted_nil]
          rfl
        | cons d s =>
          rw [converted_cons (.inr (by decide))]
          rfl
      · have hnext : ∀ s, nextToken? (c :: s) = some (.plain c, s) :=
          nextToken?_chars (t := .plain c) (by simpa using hslash)
        simp [SameToken, hnext]

theorem alongside_converted (escaped : Bool) (s : List Char) :
    Reader.Alongside s (converted escaped s) := by
  intro ts s₁ hspans hts
  have hparen : .plain '(' ∉ ts := by
    intro hmem
    obtain ⟨c, heq, hc⟩ := hts _ hmem
    cases heq
    simp at hc
  refine ⟨converted (endsSlashed escaped ts) s₁, ?_, sameToken_converted _ _⟩
  rw [hspans.eq, converted_written hspans.tokens hparen]

/-! ## Text that is passed over -/

/-- Characters that neither end nor escape anything are tokens of a text that goes on behind them. -/
theorem written_eq_append {stop : Char} {p tail after : List Char}
    (h : written us ++ tail = p ++ after) (htail : ∀ d ∈ tail.head?, d = stop)
    (hp : ∀ d ∈ p, d ≠ stop ∧ d ≠ '\\') :
    ∃ vs, us = p.map .plain ++ vs ∧ after = written vs ++ tail := by
  induction p generalizing us with
  | nil => exact ⟨us, rfl, h.symm⟩
  | cons d p ih =>
    obtain ⟨hstop, hslash⟩ := hp d (by simp)
    cases us with
    | nil =>
      have htail' : tail = d :: (p ++ after) := h
      exact absurd (htail d (by rw [htail']; rfl)) hstop
    | cons t us =>
      cases t with
      | escaped e => exact absurd (List.cons.inj h).1.symm hslash
      | plain e =>
        obtain ⟨rfl, hrest⟩ := List.cons.inj h
        obtain ⟨vs, rfl, hafter⟩ := ih hrest fun d hd => hp d (List.mem_cons_of_mem _ hd)
        exact ⟨vs, rfl, hafter⟩

/-- The name of a group does not reach over the sign that ends a text. -/
theorem exists_after_name {stop : Char} {tail : List Char}
    (hstop : stop ∉ ['(', '?', ':', 'P', '<', '>', '\\']) (hword : isWord stop = false)
    (htail : ∀ d ∈ tail.head?, d = stop)
    (h : afterNamedGroup? ('(' :: (written ts ++ tail)) = some rest) :
    ∃ p vs : List Token, ts = p ++ vs ∧ rest = written vs ++ tail := by
  obtain ⟨name, heq, -, hname⟩ := exists_of_afterNamedGroup? h
  have heq : written ts ++ tail = ('?' :: 'P' :: '<' :: (name ++ ['>'])) ++ rest := by
    simpa using heq
  simp only [List.mem_cons, List.not_mem_nil, or_false, not_or] at hstop
  have hp : ∀ d ∈ '?' :: 'P' :: '<' :: (name ++ ['>']), d ≠ stop ∧ d ≠ '\\' := by
    intro d hd
    simp only [List.mem_cons, List.mem_append, List.not_mem_nil, or_false] at hd
    obtain rfl | rfl | rfl | hd | rfl := hd
    · exact ⟨Ne.symm hstop.2.1, by decide⟩
    · exact ⟨Ne.symm hstop.2.2.2.1, by decide⟩
    · exact ⟨Ne.symm hstop.2.2.2.2.1, by decide⟩
    · have hd := List.all_eq_true.mp hname d hd
      constructor
      · rintro rfl
        simp [hd] at hword
      · rintro rfl
        exact absurd hd (by decide)
    · exact ⟨Ne.symm hstop.2.2.2.2.2.1, by decide⟩
  obtain ⟨vs, hts, hrest⟩ := written_eq_append heq htail hp
  exact ⟨_, vs, hts, hrest⟩

/-- In a text that ends with a sign, which is no part of the opening of a group, groups may be
rewritten but the sign ends it as before. -/
theorem exists_converted_passed {stop : Char} {tail : List Char}
    (hstop : stop ∉ ['(', '?', ':', 'P', '<', '>', '\\']) (hword : isWord stop = false)
    (htail : ∀ d ∈ tail.head?, d = stop) (hts : ∀ t ∈ ts, t ≠ .plain '\\' ∧ t ≠ .plain stop)
    (escaped : Bool) :
    ∃ us escaped', converted escaped (written ts ++ tail) = written us ++ converted escaped' tail ∧
      ∀ t ∈ us, t ≠ .plain '\\' ∧ t ≠ .plain stop := by
  induction hn : ts.length using Nat.strongRecOn generalizing ts escaped with
  | _ n ih =>
    cases ts with
    | nil => exact ⟨[], escaped, rfl, by simp⟩
    | cons t ts =>
      have hrest : ∀ u ∈ ts, u ≠ .plain '\\' ∧ u ≠ .plain stop := fun u hu =>
        hts u (List.mem_cons_of_mem _ hu)
      have hshorter : ts.length < n := by simp [← hn]
      -- signs that the rewriting leaves or puts there
      have hsigns : ∀ d ∈ ['(', '?', ':'],
          Token.plain d ≠ .plain '\\' ∧ Token.plain d ≠ .plain stop := by
        intro d hd
        simp only [List.mem_cons, List.not_mem_nil, or_false, not_or] at hstop hd
        obtain rfl | rfl | rfl := hd <;> simp [Ne.symm hstop.1, Ne.symm hstop.2.1,
          Ne.symm hstop.2.2.1]
      by_cases hparen : t = .plain '('
      · subst hparen
        obtain heq | ⟨-, rest, heq, hcase⟩ := converted_paren escaped (written ts ++ tail)
        · obtain ⟨us, escaped', hus, hnot⟩ := ih _ hshorter hrest false rfl
          refine ⟨.plain '(' :: us, escaped', ?_, ?_⟩
          · rw [← List.cons_append] at heq
            exact heq.trans (congrArg _ hus)
          · exact List.forall_mem_cons.mpr ⟨hsigns _ (by simp), hnot⟩
        · -- what is left of a named group is shorter, too
          have hleft : ∃ vs, rest = written vs ++ tail ∧ vs.length < n ∧
              ∀ v ∈ vs, v ≠ .plain '\\' ∧ v ≠ .plain stop := by
            obtain ⟨-, rfl⟩ | hnamed := hcase
            · exact ⟨ts, rfl, hshorter, hrest⟩
            · obtain ⟨p, vs, rfl, hvs⟩ := exists_after_name hstop hword htail hnamed
              refine ⟨vs, hvs, ?_, fun v hv => hrest v (List.mem_append_right _ hv)⟩
              rw [List.length_append] at hshorter
              omega
          obtain ⟨vs, rfl, hlength, hvs⟩ := hleft
          obtain ⟨us, escaped', hus, hnot⟩ := ih _ hlength hvs false rfl
          refine ⟨.plain '(' :: .plain '?' :: .plain ':' :: us, escaped', ?_, ?_⟩
          · rw [← List.cons_append] at heq
            exact heq.trans (congrArg ('(' :: '?' :: ':' :: ·) hus)
          · exact List.forall_mem_cons.mpr ⟨hsigns _ (by simp), List.forall_mem_cons.mpr
              ⟨hsigns _ (by simp), List.forall_mem_cons.mpr ⟨hsigns _ (by simp), hnot⟩⟩⟩
      · obtain ⟨us, escaped', hus, hnot⟩ := ih _ hshorter hrest (t == .escaped '\\') rfl
        refine ⟨t :: us, escaped', ?_, ?_⟩
        · rw [written_cons, List.append_assoc, converted_chars (hts t (by simp)).1 hparen, hus,
            written_cons, List.append_assoc]
        · exact List.forall_mem_cons.mpr ⟨hts t (by simp), hnot⟩

end StepTrace.Manifest
