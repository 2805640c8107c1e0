import StepTrace.Proofs.Outline.Rows
import StepTrace.Proofs.Returns.Documents

/-!
# Filling in all placeholders at once

The columns of a row are filled in one after the other, each in the text that the columns before it
have left.  On ordinary text this comes to the same as filling in all of them at once: a text that is
put together from tokens and from text without brackets stays such a text, since what is put in for
a token has no brackets either, and so no column ever meets a token that an earlier one has brought.

Texts are lists of pieces here (`written`).  Brackets that belong to no token do no harm as long as
none that closes comes behind one that opens, so the lemmas are about a text in two parts: in the
first one no bracket opens beside the tokens, and in the second one none closes (`fill_written`).
-/

namespace StepTrace.Outline

open Text

variable {name cell s rest : List Char} {headers row : List (List Char)}

/-! ## Tokens and the text beside them -/

/-- There is no bracket in the text. -/
def IsPlain (s : List Char) : Prop :=
  '<' ∉ s ∧ '>' ∉ s

instance (s : List Char) : Decidable (IsPlain s) :=
  inferInstanceAs (Decidable (_ ∧ _))

/-- A part of a text: a token in brackets, or text beside the tokens. -/
inductive Piece
  | plain (s : List Char)
  | token (name : List Char)

namespace Piece

/-- The piece as it stands in the text. -/
def chars : Piece → List Char
  | plain s => s
  | token name => placeholder name

/-- Beside its token the piece does without the bracket. -/
def Spares (bracket : Char) : Piece → Prop
  | plain s => bracket ∉ s
  | token name => IsPlain name

/-- The piece has no brackets but those of its token. -/
def IsOrdinary : Piece → Prop
  | plain s => IsPlain s
  | token name => IsPlain name

instance (p : Piece) : Decidable p.IsOrdinary := by
  cases p <;> exact inferInstanceAs (Decidable (IsPlain _))

/-- The piece with a cell in the place of the tokens of one name. -/
def put (name cell : List Char) : Piece → Piece
  | plain s => plain s
  | token other => if other = name then plain cell else token other

end Piece

/-- The text that is made of the pieces. -/
def written (pieces : List Piece) : List Char :=
  pieces.flatMap Piece.chars

variable {pieces before after : List Piece}

@[simp] theorem written_nil : written [] = [] := rfl

@[simp] theorem written_cons (p : Piece) (pieces : List Piece) :
    written (p :: pieces) = p.chars ++ written pieces := rfl

theorem Piece.IsOrdinary.spares {p : Piece} (h : p.IsOrdinary) : p.Spares '<' ∧ p.Spares '>' := by
  cases p with
  | plain s => exact h
  | token name => exact ⟨h, h⟩

theorem Piece.Spares.put {bracket : Char} {p : Piece} (hcell : bracket ∉ cell)
    (h : p.Spares bracket) : (p.put name cell).Spares bracket := by
  cases p with
  | plain s => exact h
  | token other =>
    rw [Piece.put]
    split
    · exact hcell
    · exact h

/-! ## One column -/

theorem replaceFrom_skip (old new s rest : List Char) :
    replaceFrom old new s.length (s ++ rest) = replaceFrom old new 0 rest := by
  induction s with
  | nil => rfl
  | cons c s ih => exact ih

/-- What is searched for is replaced where it stands. -/
theorem replaceFrom_self {old : List Char} (h : old ≠ []) (new rest : List Char) :
    replaceFrom old new 0 (old ++ rest) = new ++ replaceFrom old new 0 rest := by
  obtain ⟨c, old, rfl⟩ := List.exists_cons_of_ne_nil h
  rw [List.cons_append, replaceFrom, if_pos]
  · exact congrArg (new ++ ·) (replaceFrom_skip (c :: old) new old rest)
  · rw [List.isPrefixOf_iff_prefix]
    exact List.prefix_append (c :: old) rest

theorem replaceFrom_pass {old new : List Char} {c : Char} (h : ¬old <+: c :: s) :
    replaceFrom old new 0 (c :: s) = c :: replaceFrom old new 0 s := by
  rw [replaceFrom, if_neg]
  rwa [List.isPrefixOf_iff_prefix]

/-- Text in which no bracket opens is passed over. -/
theorem replaceFrom_plain (h : '<' ∉ s) (rest : List Char) :
    replaceFrom (placeholder name) cell 0 (s ++ rest) =
      s ++ replaceFrom (placeholder name) cell 0 rest := by
  induction s with
  | nil => rfl
  | cons c s ih =>
    have hc : '<' ≠ c := fun heq => h (heq ▸ List.mem_cons_self)
    rw [List.cons_append, replaceFrom_pass, ih (fun hmem => h (List.mem_cons_of_mem _ hmem)),
      List.cons_append]
    exact fun hprefix => hc (List.cons_prefix_cons.mp hprefix).1

/-- A name ends at the first bracket that closes. -/
theorem eq_of_closed {other tail : List Char} (h : '>' ∉ name) (hother : '>' ∉ other)
    (heq : name ++ '>' :: tail = other ++ '>' :: rest) : name = other := by
  induction name generalizing other with
  | nil =>
    cases other with
    | nil => rfl
    | cons c other => simp_all
  | cons c name ih =>
    cases other with
    | nil => simp_all
    | cons d other =>
      rw [List.cons_append, List.cons_append, List.cons.injEq] at heq
      obtain ⟨rfl, heq⟩ := heq
      rw [ih (List.not_mem_of_not_mem_cons h) (List.not_mem_of_not_mem_cons hother) heq]

theorem placeholder_ne_nil (name : List Char) : placeholder name ≠ [] :=
  List.cons_ne_nil _ _

theorem placeholder_prefix_iff {other : List Char} (h : IsPlain name) (hother : IsPlain other) :
    placeholder name <+: placeholder other ++ rest ↔ other = name := by
  constructor
  · rintro ⟨tail, htail⟩
    have heq : name ++ '>' :: tail = other ++ '>' :: rest := by simpa [placeholder] using htail
    exact (eq_of_closed h.2 hother.2 heq).symm
  · rintro rfl
    exact List.prefix_append _ _

/-- Where a token stands it is replaced if it has the name. -/
theorem replaceFrom_token {other : List Char} (h : IsPlain name) (hother : IsPlain other)
    (rest : List Char) :
    replaceFrom (placeholder name) cell 0 (placeholder other ++ rest) =
      ((Piece.token other).put name cell).chars ++
        replaceFrom (placeholder name) cell 0 rest := by
  by_cases hname : other = name
  · subst hname
    rw [Piece.put, if_pos rfl, replaceFrom_self (placeholder_ne_nil _), Piece.chars]
  · have hopen : ¬placeholder name <+: '<' :: (other ++ ['>'] ++ rest) := fun hprefix =>
      hname ((placeholder_prefix_iff h hother).mp hprefix)
    rw [Piece.put, if_neg hname, Piece.chars]
    refine (replaceFrom_pass hopen).trans (congrArg (List.cons '<') ?_)
    exact replaceFrom_plain (by simp [hother.1]) rest

/-- A bracket that is not closed beside the tokens begins no token. -/
theorem not_prefix_of_open (hname : '<' ∉ name) (hs : '>' ∉ s)
    (h : ∀ p ∈ pieces, p.Spares '>') : ¬name ++ ['>'] <+: s ++ written pieces := by
  induction pieces generalizing s with
  | nil =>
    intro hprefix
    have hmem : '>' ∈ s ++ written [] := hprefix.subset (by simp)
    exact hs (by simpa using hmem)
  | cons p pieces ih =>
    obtain ⟨hp, hrest⟩ := List.forall_mem_cons.mp h
    cases p with
    | plain s' =>
      rw [written_cons, Piece.chars, ← List.append_assoc]
      exact ih (by simp [hs, show '>' ∉ s' from hp]) hrest
    | token other =>
      rintro ⟨tail, htail⟩
      have heq : name ++ '>' :: tail = s ++ '<' :: (other ++ '>' :: written pieces) := by
        simpa [Piece.chars, placeholder] using htail
      rcases List.append_eq_append_iff.mp heq with ⟨mid, rfl, hmid⟩ | ⟨mid, rfl, hmid⟩
      · cases mid with
        | nil => simp at hmid
        | cons c mid =>
          obtain ⟨rfl, -⟩ := List.cons.inj hmid
          exact hs (by simp)
      · cases mid with
        | nil => simp at hmid
        | cons c mid =>
          obtain ⟨rfl, -⟩ := List.cons.inj hmid
          exact hname (by simp)

/-- Text in which no bracket closes is passed over, where none closes beside the tokens behind it. -/
theorem replaceFrom_open (h : IsPlain name) (hs : '>' ∉ s) (hpieces : ∀ p ∈ pieces, p.Spares '>') :
    replaceFrom (placeholder name) cell 0 (s ++ written pieces) =
      s ++ replaceFrom (placeholder name) cell 0 (written pieces) := by
  induction s with
  | nil => rfl
  | cons c s ih =>
    have hs' := List.not_mem_of_not_mem_cons hs
    have hopen : ¬placeholder name <+: c :: (s ++ written pieces) := fun hprefix =>
      not_prefix_of_open h.1 hs' hpieces (List.cons_prefix_cons.mp hprefix).2
    rw [List.cons_append, replaceFrom_pass hopen, ih hs', List.cons_append]

/-- Where no bracket closes beside the tokens, only they are replaced. -/
theorem replaceFrom_written (h : IsPlain name) (hpieces : ∀ p ∈ pieces, p.Spares '>') :
    replaceFrom (placeholder name) cell 0 (written pieces) =
      written (pieces.map (Piece.put name cell)) := by
  induction pieces with
  | nil => rfl
  | cons p pieces ih =>
    obtain ⟨hp, hrest⟩ := List.forall_mem_cons.mp hpieces
    rw [written_cons, List.map_cons, written_cons, ← ih hrest]
    cases p with
    | plain s => exact replaceFrom_open h hp hrest
    | token other => exact replaceFrom_token h hp _

/-- Where no bracket opens beside the tokens, only they are replaced, whatever follows. -/
theorem replaceFrom_written_append (h : IsPlain name) (hpieces : ∀ p ∈ pieces, p.Spares '<')
    (rest : List Char) :
    replaceFrom (placeholder name) cell 0 (written pieces ++ rest) =
      written (pieces.map (Piece.put name cell)) ++
        replaceFrom (placeholder name) cell 0 rest := by
  induction pieces with
  | nil => rfl
  | cons p pieces ih =>
    obtain ⟨hp, hrest⟩ := List.forall_mem_cons.mp hpieces
    rw [written_cons, List.map_cons, written_cons, List.append_assoc, List.append_assoc,
      ← ih hrest]
    cases p with
    | plain s => exact replaceFrom_plain hp _
    | token other => exact replaceFrom_token h hp _

theorem replaceAll_written (h : IsPlain name) (hbefore : ∀ p ∈ before, p.Spares '<')
    (hafter : ∀ p ∈ after, p.Spares '>') :
    replaceAll (placeholder name) cell (written before ++ written after) =
      written (before.map (Piece.put name cell)) ++ written (after.map (Piece.put name cell)) := by
  rw [replaceAll, replaceFrom_written_append h hbefore, replaceFrom_written h hafter]

/-! ## All columns -/

/-- The cell of the first column with the name, if there is one; a cell that is missing is empty. -/
def cellOf? (headers row : List (List Char)) (name : List Char) : Option (List Char) :=
  if name ∈ headers then some ((row[headers.idxOf name]?).getD []) else none

/-- The piece with its token filled in, if it names a column. -/
def Piece.filled (headers row : List (List Char)) : Piece → Piece
  | plain s => plain s
  | token name => ((cellOf? headers row name).map plain).getD (token name)

theorem cellOf?_nil (row : List (List Char)) (name : List Char) : cellOf? [] row name = none := rfl

theorem cellOf?_cons (header : List Char) (headers row : List (List Char)) (name : List Char) :
    cellOf? (header :: headers) row name =
      if name = header then some (row.head?.getD []) else cellOf? headers row.tail name := by
  by_cases hname : name = header
  · subst hname
    cases row <;> simp [cellOf?]
  · have hother : (header == name) = false := by simpa using Ne.symm hname
    cases row <;> simp [cellOf?, hname, List.idxOf_cons, hother]

theorem Piece.filled_nil (row : List (List Char)) : Piece.filled [] row = fun p => p := by
  funext p
  cases p <;> rfl

theorem Piece.filled_put (header : List Char) (headers row : List (List Char)) (p : Piece) :
    (p.put header (row.head?.getD [])).filled headers row.tail = p.filled (header :: headers) row := by
  cases p with
  | plain s => rfl
  | token name =>
    rw [Piece.put, Piece.filled, cellOf?_cons]
    split <;> rfl

theorem isPlain_head (h : ∀ c ∈ row, IsPlain c) : IsPlain (row.head?.getD []) := by
  cases row with
  | nil => decide
  | cons cell row => exact h cell List.mem_cons_self

/-- **Filling in one column after the other is filling in all of them at once.** -/
theorem fill_written (hheaders : ∀ h ∈ headers, IsPlain h) (hcells : ∀ c ∈ row, IsPlain c)
    (hbefore : ∀ p ∈ before, p.Spares '<') (hafter : ∀ p ∈ after, p.Spares '>') :
    fill (written before ++ written after) headers row =
      written (before.map (Piece.filled headers row)) ++
        written (after.map (Piece.filled headers row)) := by
  induction headers generalizing row before after with
  | nil => rw [fill, Piece.filled_nil, List.map_id', List.map_id']
  | cons header headers ih =>
    obtain ⟨hheader, hheaders⟩ := List.forall_mem_cons.mp hheaders
    have hcell := isPlain_head hcells
    have hput {bracket : Char} {pieces : List Piece} (hbracket : bracket ∉ row.head?.getD [])
        (h : ∀ p ∈ pieces, p.Spares bracket) :
        ∀ p ∈ pieces.map (Piece.put header (row.head?.getD [])), p.Spares bracket :=
      List.forall_mem_map.mpr fun p hp => (h p hp).put hbracket
    rw [fill, replaceAll_written hheader hbefore hafter,
      ih hheaders (fun c hc => hcells c (List.mem_of_mem_tail hc)) (hput hcell.1 hbefore)
        (hput hcell.2 hafter)]
    simp only [List.map_map, Function.comp_def, Piece.filled_put]

theorem fill_ordinary (hheaders : ∀ h ∈ headers, IsPlain h) (hcells : ∀ c ∈ row, IsPlain c)
    (hpieces : ∀ p ∈ pieces, p.IsOrdinary) :
    fill (written pieces) headers row = written (pieces.map (Piece.filled headers row)) := by
  have hnone : ∀ p ∈ ([] : List Piece), p.Spares '<' := nofun
  exact fill_written hheaders hcells hnone fun p hp => (hpieces p hp).spares.2

/-! ## Columns in another order -/

/-- With distinct headers and a full row a column is known by its header. -/
theorem cellOf?_eq_some_iff (hnodup : headers.Nodup) (hfull : headers.length ≤ row.length) :
    cellOf? headers row name = some cell ↔ (name, cell) ∈ headers.zip row := by
  induction headers generalizing row with
  | nil => simp [cellOf?_nil]
  | cons header headers ih =>
    obtain ⟨hheader, hnodup⟩ := List.nodup_cons.mp hnodup
    cases row with
    | nil => simp at hfull
    | cons first row =>
      rw [cellOf?_cons, List.zip_cons_cons, List.mem_cons, Prod.mk.injEq]
      split
      next hname =>
        subst hname
        constructor
        · intro hcell
          exact .inl ⟨rfl, (Option.some.inj hcell).symm⟩
        · rintro (⟨-, rfl⟩ | hmem)
          · rfl
          · exact absurd (List.of_mem_zip hmem).1 hheader
      next hname =>
        simp [hname, ih hnodup (by simpa using hfull)]

theorem cellOf?_congr {headers' row' : List (List Char)} (hnodup : headers.Nodup)
    (hfull : headers.length ≤ row.length) (hfull' : headers'.length ≤ row'.length)
    (h : (headers.zip row).Perm (headers'.zip row')) :
    cellOf? headers row = cellOf? headers' row' := by
  have hheaders : headers.Perm headers' := by
    have hfirst := h.map Prod.fst
    rwa [List.map_fst_zip hfull, List.map_fst_zip hfull'] at hfirst
  funext name
  refine Option.ext fun cell => ?_
  rw [cellOf?_eq_some_iff hnodup hfull, cellOf?_eq_some_iff (hheaders.nodup_iff.mp hnodup) hfull',
    h.mem_iff]

theorem Piece.filled_congr {headers' row' : List (List Char)}
    (h : cellOf? headers row = cellOf? headers' row') :
    Piece.filled headers row = Piece.filled headers' row' := by
  funext p
  cases p with
  | plain s => rfl
  | token name => rw [Piece.filled, Piece.filled, h]

/-- The order of the columns makes no difference. -/
theorem fill_perm {headers' row' : List (List Char)} (hheaders : ∀ h ∈ headers, IsPlain h)
    (hcells : ∀ c ∈ row, IsPlain c) (hpieces : ∀ p ∈ pieces, p.IsOrdinary) (hnodup : headers.Nodup)
    (hfull : row.length = headers.length) (hfull' : row'.length = headers'.length)
    (h : (headers.zip row).Perm (headers'.zip row')) :
    fill (written pieces) headers' row' = fill (written pieces) headers row := by
  have hsame := Piece.filled_congr (cellOf?_congr hnodup (Nat.le_of_eq hfull.symm)
    (Nat.le_of_eq hfull'.symm) h)
  have hfirst := h.map Prod.fst
  have hsecond := h.map Prod.snd
  rw [List.map_fst_zip (Nat.le_of_eq hfull.symm), List.map_fst_zip (Nat.le_of_eq hfull'.symm)]
    at hfirst
  rw [List.map_snd_zip (Nat.le_of_eq hfull), List.map_snd_zip (Nat.le_of_eq hfull')] at hsecond
  have hheaders' : ∀ h ∈ headers', IsPlain h := fun h hmem => hheaders h (hfirst.mem_iff.mpr hmem)
  have hcells' : ∀ c ∈ row', IsPlain c := fun c hmem => hcells c (hsecond.mem_iff.mpr hmem)
  rw [fill_ordinary hheaders hcells hpieces, fill_ordinary hheaders' hcells' hpieces, hsame]

/-! ## Steps -/

/-- The value with its text changed, if it is one. -/
def onText (f : List Char → List Char) : Value → Value
  | .text s => .text (String.ofList (f s.toList))
  | v => v

/-- A list of characters as a value. -/
def textOf (s : List Char) : Value :=
  .text (String.ofList s)

theorem fillValue_textual {v : Value} (h : v.Textual) (headers row : List (List Char)) :
    fillValue v (headers.map textOf) (row.map textOf) = .ok (onText (fill · headers row) v) := by
  obtain ⟨s, rfl⟩ := h
  have htexts (ss : List (List Char)) : ss.map textOf = (ss.map String.ofList).map .text :=
    List.map_map.symm
  rw [htexts, htexts, fillValue_text, List.map_map, List.map_map]
  simp [Function.comp_def, onText]

theorem optionMapM_eq_map {α β : Type} {f : α → Except Fault β} {g : α → β} {x : Option α}
    (h : ∀ y ∈ x, f y = .ok (g y)) : x.mapM f = .ok (x.map g) := by
  cases x with
  | none => rfl
  | some y =>
    change (do let z ← f y; pure (some z)) = Except.ok (some (g y))
    rw [h y rfl]
    rfl

/-- Every text of a step is filled in by itself. -/
theorem copyStep_textual {template : Step} (h : template.Written) (id owner : String)
    (headers row : List (List Char)) :
    copyStep template id owner (headers.map textOf) (row.map textOf) = .ok {
      id
      keyword := template.keyword
      text := onText (fill · headers row) template.text
      location := template.location
      scenarioId := owner
      docString := template.docString.map (onText (fill · headers row))
      table := template.table.map (·.map (·.map (onText (fill · headers row)))) } := by
  rw [copyStep, fillValue_textual h.text,
    optionMapM_eq_map fun v hv => fillValue_textual (h.docString v hv) headers row,
    optionMapM_eq_map fun rows hrows => mapM_eq_map fun cells hcells => mapM_eq_map fun v hv =>
      fillValue_textual (h.table rows hrows cells hcells v hv) headers row]
  rfl

/-- A row that is made a scenario leaves all steps that are there as they are. -/
theorem row_keeps {s : Store} {o : Ref Outline} (ho : s.Has (.outline o)) (headers cells : List Value)
    {x : Ref Step} (hx : s.Has (.step x)) :
    ((Build.row o headers cells).run s).2.get x = s.get x := by
  rw [Build.run_row]
  split
  · rfl
  next made steps _ =>
    exact (Store.addRow_lengthened ho made steps).1.grows.get_step hx nofun

/-- **On ordinary text, filling in the columns one by one fills in all placeholders at once.**  A
token that names a column makes way for the cell of the first such column, all else stays, and the
order of the columns makes no difference where their headers are distinct and the row is full.  All
texts of a template are filled in like this, each by itself, and the template stays as it is. -/
theorem fill_simultaneous (hheaders : ∀ h ∈ headers, IsPlain h) (hcells : ∀ c ∈ row, IsPlain c) :
    (∀ pieces : List Piece, (∀ p ∈ pieces, p.IsOrdinary) →
      fill (written pieces) headers row = written (pieces.map (Piece.filled headers row)) ∧
      ∀ headers' row' : List (List Char), headers.Nodup → row.length = headers.length →
        row'.length = headers'.length → (headers.zip row).Perm (headers'.zip row') →
        fill (written pieces) headers' row' = fill (written pieces) headers row) ∧
    (∀ template : Step, template.Written → ∀ id owner : String,
      copyStep template id owner (headers.map textOf) (row.map textOf) = .ok {
        id
        keyword := template.keyword
        text := onText (fill · headers row) template.text
        location := template.location
        scenarioId := owner
        docString := template.docString.map (onText (fill · headers row))
        table := template.table.map (·.map (·.map (onText (fill · headers row)))) }) ∧
    ∀ (s : Store) (o : Ref Outline) (template : Ref Step), s.Has (.outline o) →
      s.Has (.step template) →
      ((Build.row o (headers.map textOf) (row.map textOf)).run s).2.get template =
        s.get template := by
  refine ⟨fun pieces hpieces => ⟨fill_ordinary hheaders hcells hpieces, ?_⟩,
    fun template htemplate id owner => copyStep_textual htemplate id owner headers row,
    fun s o template ho htemplate => row_keeps ho _ _ htemplate⟩
  intro headers' row' hnodup hfull hfull' hperm
  exact fill_perm hheaders hcells hpieces hnodup hfull hfull' hperm

/-- Of two columns of one name the first counts, a cell that is missing is empty, and a token that
names no column stays. -/
theorem fill_simultaneous_fruit :
    (∀ h ∈ ["name".toList, "name".toList, "count".toList], IsPlain h) ∧
    (∀ c ∈ ["pear".toList, "apple".toList], IsPlain c) ∧
    fill "<name>: <count> <kind>".toList ["name".toList, "name".toList, "count".toList]
      ["pear".toList, "apple".toList] = "pear:  <kind>".toList := by
  have hheaders : ∀ h ∈ ["name".toList, "name".toList, "count".toList], IsPlain h := by decide
  have hcells : ∀ c ∈ ["pear".toList, "apple".toList], IsPlain c := by decide
  refine ⟨hheaders, hcells, ?_⟩
  let pieces := [Piece.token "name".toList, .plain ": ".toList, .token "count".toList,
    .plain " ".toList, .token "kind".toList]
  exact ((fill_simultaneous hheaders hcells).1 pieces (by decide)).1

end StepTrace.Outline
