import StepTrace.Proofs.Manifest.Expansion
import StepTrace.Proofs.Manifest.Seams
import StepTrace.Proofs.Regex.Inert
import StepTrace.Proofs.Regex.Numbering
import StepTrace.Proofs.Regex.Uncaptured

/-!
# The groups of a pattern with constants

A constant loses its groups before it is put into a pattern, so that the groups of the pattern keep
their numbers.  The rewriting may miss groups: those behind an escaped backslash, and those with a
name that is not made of word characters.  A constant has as many groups left as it has missed.

When none is missed, each constant is an inert text, and whatever is put in for the references of a
pattern is inert again, however many rounds it takes (`Ready.filled`).  So the groups of the pattern
are opened where they were opened before.

The main result is `interpolated_groups`.
-/

namespace StepTrace.Manifest

open Text Regex

variable {constants : Constants} {name value written s t : List Char} {ps qs : List Piece}
  {σ τ : Scan} {f : Piece → List Char}

/-! ## References where items may begin -/

/-- Every reference among the pieces stands where an item may begin. -/
def Hosts : Scan → List Piece → Prop
  | _, [] => True
  | σ, piece :: ps => (piece.name?.isSome → σ.Admits) ∧ Hosts (σ.past piece.text) ps

instance : (σ : Scan) → (ps : List Piece) → Decidable (Hosts σ ps)
  | _, [] => inferInstanceAs (Decidable True)
  | σ, piece :: ps =>
    have := instDecidableHosts (σ.past piece.text) ps
    inferInstanceAs (Decidable (_ ∧ _))

theorem hosts_append :
    Hosts σ (ps ++ qs) ↔ Hosts σ ps ∧ Hosts (σ.past (ps.flatMap Piece.text)) qs := by
  induction ps generalizing σ with
  | nil => simp [Hosts, Scan.past]
  | cons piece ps ih =>
    rw [List.cons_append, Hosts, Hosts, ih, List.flatMap_cons, Scan.past_append, and_assoc]

theorem Hosts.congr (h : Hosts σ ps) (heq : σ.gist = τ.gist) : Hosts τ ps := by
  induction ps generalizing σ τ with
  | nil => trivial
  | cons piece ps ih =>
    exact ⟨fun hname => (h.1 hname).congr heq, ih h.2 (Scan.gist_past_congr heq _)⟩

theorem Hosts.of_references_eq_nil (h : ps.filterMap Piece.name? = []) : Hosts σ ps := by
  induction ps generalizing σ with
  | nil => trivial
  | cons piece ps ih =>
    cases piece with
    | char c => exact ⟨fun hname => (by cases hname), ih h⟩
    | reference name written => cases h

/-- Word characters and blanks bracket nothing. -/
theorem not_mem_brackets {c : Char} (h : isWord c = true ∨ isBlank c = true) :
    c ∉ ['(', ')', '[', '\\', '?'] := by
  have hsigns : ∀ d ∈ ['(', ')', '[', '\\', '?'], ¬(isWord d = true ∨ isBlank d = true) :=
    forall_mem_of_all (by decide)
  exact fun hmem => hsigns c hmem h

theorem Refers.inert (h : Refers name written) : Inert written := by
  obtain ⟨before, after, rfl, -, hbefore, hname, hafter⟩ := h
  refine inert_of_plain (by simp) fun c hc => ?_
  simp only [List.mem_cons, List.mem_append, List.not_mem_nil, or_false] at hc
  obtain rfl | rfl | hc | hc | hc | rfl := hc
  · decide
  · decide
  · exact not_mem_brackets (.inr (hbefore c hc))
  · exact not_mem_brackets (.inl (hname c hc))
  · exact not_mem_brackets (.inr (hafter c hc))
  · decide

theorem inert_text {piece : Piece} (hmem : piece ∈ pieces s) (hname : piece.name?.isSome) :
    Inert piece.text := by
  cases piece with
  | char c => cases hname
  | reference name written => exact (refers_of_mem_pieces hmem).inert

/-! ## Texts in place of references -/

/-- Inert texts in place of references where items may begin leave the gist of the scan alone. -/
theorem gist_past_flatMap (hchar : ∀ c, f (.char c) = [c])
    (hinert : ∀ piece ∈ ps, piece.name?.isSome → Inert (f piece) ∧ Inert piece.text)
    (hhosts : Hosts σ ps) :
    (σ.past (ps.flatMap f)).gist = (σ.past (ps.flatMap Piece.text)).gist := by
  induction ps generalizing σ with
  | nil => rfl
  | cons piece ps ih =>
    have hfirst : (σ.past (f piece)).gist = (σ.past piece.text).gist := by
      cases hname : piece.name? with
      | none =>
        cases piece with
        | char c => rw [hchar]; rfl
        | reference name written => cases hname
      | some name =>
        obtain ⟨hput, htext⟩ := hinert piece (by simp) (by simp [hname])
        have hadmits := hhosts.1 (by simp [hname])
        rw [hput σ hadmits, htext σ hadmits]
    rw [List.flatMap_cons, List.flatMap_cons, Scan.past_append, Scan.past_append,
      Scan.gist_past_congr hfirst]
    exact ih (fun piece hmem => hinert piece (List.mem_cons_of_mem _ hmem)) hhosts.2

/-- Of a text, characters stand for themselves and references for inert texts. -/
structure Fills (f : Piece → List Char) (s : List Char) : Prop where
  char : ∀ c, f (.char c) = [c]
  inert : ∀ piece ∈ pieces s, piece.name?.isSome → Inert (f piece)

/-- The second text is the first with inert texts in place of its references. -/
def Filled (s t : List Char) : Prop :=
  ∃ f, Fills f s ∧ (pieces s).flatMap f = t

theorem Filled.refl (s : List Char) : Filled s s :=
  ⟨Piece.text, ⟨fun _ => rfl, fun _ hmem hname => inert_text hmem hname⟩, flatMap_pieces s⟩

/-- A constant that can be put into patterns, with references of its own or without. -/
structure Puttable (value : List Char) : Prop where
  inert : Inert value
  sealed : Sealed value
  last : value.getLast? ≠ some '#'
  hosts : ∀ σ : Scan, σ.Admits → Hosts σ (pieces value)

theorem puttable_of_isWord (hne : name ≠ []) (h : ∀ c ∈ name, isWord c = true) :
    Puttable name where
  inert := inert_of_plain hne fun c hc => not_mem_brackets (.inl (h c hc))
  sealed := (signsRefer_of_not_mem (not_mem_of_isWord h)).sealed
  last hlast := not_mem_of_isWord h (List.mem_of_getLast? hlast)
  hosts _ _ := by
    rw [pieces_of_not_mem (not_mem_of_isWord h)]
    exact Hosts.of_references_eq_nil (by simp [Piece.name?])

/-- What is put in for a constant has inert texts put in for its own references. -/
theorem Puttable.inert_flatMap (hvalue : Puttable value) (hf : Fills f value) :
    Inert ((pieces value).flatMap f) := by
  intro σ hσ
  rw [gist_past_flatMap hf.char (fun piece hmem hname =>
    ⟨hf.inert piece hmem hname, inert_text hmem hname⟩) (hvalue.hosts σ hσ), flatMap_pieces]
  exact hvalue.inert σ hσ

theorem Filled.of_putConstant (hs : Sealed s) (hvalue : Puttable value)
    (h : Filled (putConstant name value s) t) : Filled s t := by
  obtain ⟨f, hf, rfl⟩ := h
  have hpieces : pieces (putConstant name value s) = (pieces s).flatMap (putPiece name value) :=
    hs.pieces_putConstant hvalue.sealed hvalue.last
  have hfrom : ∀ piece ∈ pieces s, ∀ new ∈ putPiece name value piece,
      new.name?.isSome → Inert (f new) := by
    intro piece hmem new hnew
    refine hf.inert new ?_
    rw [hpieces]
    exact List.mem_flatMap.mpr ⟨piece, hmem, hnew⟩
  refine ⟨fun piece => (putPiece name value piece).flatMap f, ⟨fun c => ?_, ?_⟩, ?_⟩
  · simp [putPiece, Piece.name?, hf.char]
  · intro piece hmem hname
    by_cases hput : piece.name? = some name
    · have hnew : putPiece name value piece = pieces value := if_pos hput
      rw [hnew]
      exact hvalue.inert_flatMap ⟨hf.char, fun new hmem' =>
        hfrom piece hmem new (by rw [hnew]; exact hmem')⟩
    · have hnew : putPiece name value piece = [piece] := if_neg hput
      rw [hnew, List.flatMap_singleton]
      exact hfrom piece hmem piece (by simp [hnew]) hname
  · rw [hpieces, List.flatMap_assoc]

/-- The text has the groups of the pattern that it was made from. -/
structure KeepsGroups (pattern text : List Char) : Prop where
  /-- Up to any piece of the pattern as many groups are opened in the text. -/
  opened : ∃ f : Piece → List Char, (∀ c, f (.char c) = [c]) ∧ (pieces pattern).flatMap f = text ∧
    ∀ ps, ps <+: pieces pattern → (({} : Scan).past (ps.flatMap f)).openings =
      (({} : Scan).past (ps.flatMap Piece.text)).openings
  /-- The groups of the text are those opened in the pattern, numbered from one on. -/
  numbers : ∀ x, read (String.ofList text) = .ok x →
    x.expr.groupNumbers = List.range' 1 (({} : Scan).past pattern).openings

theorem Filled.keepsGroups (h : Filled s t) (hhosts : Hosts {} (pieces s)) : KeepsGroups s t := by
  obtain ⟨f, hf, rfl⟩ := h
  have hopened : ∀ ps, ps <+: pieces s → (({} : Scan).past (ps.flatMap f)).openings =
      (({} : Scan).past (ps.flatMap Piece.text)).openings := by
    intro ps hps
    obtain ⟨qs, hqs⟩ := hps
    refine Scan.openings_eq_of_gist (gist_past_flatMap hf.char (fun piece hmem hname => ?_)
      (hosts_append.mp (hqs ▸ hhosts)).1)
    have hmem' : piece ∈ pieces s := hqs ▸ List.mem_append_left _ hmem
    exact ⟨hf.inert piece hmem' hname, inert_text hmem' hname⟩
  refine ⟨⟨f, hf.char, rfl, hopened⟩, fun x hread => ?_⟩
  have hcount := groupCount_eq_openings hread
  rw [String.toList_ofList, hopened _ (List.prefix_refl _), flatMap_pieces] at hcount
  rw [groupNumbers_eq hread, hcount]

/-! ## Round after round -/

/-- A text into which constants can be put: its references stand where items may begin. -/
structure Ready (s : List Char) : Prop where
  sealed : Sealed s
  hosts : Hosts {} (pieces s)

theorem Hosts.putPiece (hvalue : Puttable value) (h : Hosts σ ps)
    (htext : ∀ piece ∈ ps, piece.name?.isSome → Inert piece.text) (heq : σ.gist = τ.gist) :
    Hosts τ (ps.flatMap (putPiece name value)) := by
  induction ps generalizing σ τ with
  | nil => trivial
  | cons piece ps ih =>
    have hrest : ∀ piece ∈ ps, piece.name?.isSome → Inert piece.text := fun other hmem =>
      htext other (List.mem_cons_of_mem _ hmem)
    rw [List.flatMap_cons, hosts_append]
    by_cases hput : piece.name? = some name
    · have hadmits := h.1 (by simp [hput])
      have hnew : Manifest.putPiece name value piece = pieces value := if_pos hput
      rw [hnew, flatMap_pieces]
      refine ⟨hvalue.hosts τ (hadmits.congr heq), ih h.2 hrest ?_⟩
      rw [htext piece (by simp) (by simp [hput]) σ hadmits, hvalue.inert τ (hadmits.congr heq)]
      exact Scan.gist_passed_congr heq
    · have hnew : Manifest.putPiece name value piece = [piece] := if_neg hput
      rw [hnew, List.flatMap_singleton]
      exact ⟨⟨fun hname => (h.1 hname).congr heq, trivial⟩,
        ih h.2 hrest (Scan.gist_past_congr heq _)⟩

theorem Ready.putConstant (h : Ready s) (hvalue : Puttable value) :
    Ready (putConstant name value s) := by
  refine ⟨h.sealed.putConstant hvalue.sealed hvalue.last, ?_⟩
  rw [h.sealed.pieces_putConstant hvalue.sealed hvalue.last]
  exact h.hosts.putPiece hvalue (fun _ hmem hname => inert_text hmem hname) rfl

theorem puttable_valueFor (hconstants : ∀ name value, constants name = some value → Puttable value)
    (hne : name ≠ []) (hword : ∀ c ∈ name, isWord c = true) :
    Puttable (constants.valueFor name) := by
  unfold Constants.valueFor
  cases hname : constants name with
  | none => exact puttable_of_isWord hne hword
  | some value => exact hconstants name value hname

/-- After a round constants can be put in again, and what they then fill is the text before the
round. -/
theorem Ready.expandNames {names : List (List Char)}
    (hconstants : ∀ name value, constants name = some value → Puttable value)
    (hnames : ∀ name ∈ names, name ≠ [] ∧ ∀ c ∈ name, isWord c = true) (h : Ready s) :
    Ready (expandNames constants names s).1 ∧
      ∀ t, Filled (Manifest.expandNames constants names s).1 t → Filled s t := by
  induction names generalizing s with
  | nil => exact ⟨h, fun _ => id⟩
  | cons name names ih =>
    obtain ⟨hne, hword⟩ := hnames name (by simp)
    have hvalue := puttable_valueFor hconstants hne hword
    have hput : Ready (Manifest.putConstant name (constants.valueFor name) s) :=
      h.putConstant hvalue
    rw [expandNames_cons]
    obtain ⟨hready, hfilled⟩ :=
      ih (fun other hmem => hnames other (List.mem_cons_of_mem _ hmem)) hput
    exact ⟨hready, fun t ht => (hfilled t ht).of_putConstant h.sealed hvalue⟩

theorem ne_nil_of_references (hmem : name ∈ references s) :
    name ≠ [] ∧ ∀ c ∈ name, isWord c = true := by
  obtain ⟨piece, hpiece, hname⟩ := List.mem_filterMap.mp hmem
  cases piece with
  | char c => cases hname
  | reference name' written =>
    cases hname
    obtain ⟨-, -, -, hne, -, hword, -⟩ := refers_of_mem_pieces hpiece
    exact ⟨hne, hword⟩

/-- However many rounds there are, in the end the references of the text have given way to inert
texts. -/
theorem Ready.filled (hconstants : ∀ name value, constants name = some value → Puttable value)
    (h : Ready s) (rounds : Nat) : Filled s (expandRounds constants rounds s).1 := by
  induction rounds generalizing s with
  | zero => exact .refl s
  | succ rounds ih =>
    rw [expandRounds]
    cases hnames : references s with
    | nil => exact .refl s
    | cons name names =>
      have hwords : ∀ other ∈ name :: names, other ≠ [] ∧ ∀ c ∈ other, isWord c = true :=
        fun other hmem => ne_nil_of_references (hnames ▸ hmem)
      obtain ⟨hready, hfilled⟩ := h.expandNames hconstants hwords
      exact hfilled _ (ih hready)

/-! ## Rewritten constants -/

/-- The constants of these values, rewritten without their groups. -/
def Constants.converted (values : List Char → Option (List Char)) : Constants := fun name =>
  (values name).map convertCaptures

/-- The constants of a mapping are those of its values without their slashes and anchors. -/
theorem Constants.ofValue_eq_converted (v : Value) :
    Constants.ofValue v = .converted fun name =>
      (v.lookup? (String.ofList name)).map fun value =>
        stripAnchors (stripSlashes value.display.toList) := by
  funext name
  rw [Constants.converted, Option.map_map]
  rfl

/-- A pattern that refers to no group and has no opening parenthesis in a class. -/
structure Rewritable (value : List Char) : Prop where
  reads : ∃ x, read (String.ofList value) = .ok x ∧ x.expr.refers = false
  classParens : (({} : Scan).past value).classParens = 0

/-- A text that can be put in where an item may begin: it is not empty, does not pass over the blanks
behind it, and its own references stand where items may begin. -/
structure Placeable (text : List Char) : Prop where
  ne_nil : text ≠ []
  verbose : (({} : Scan).past text).verbose = false
  sealed : Sealed text
  last : text.getLast? ≠ some '#'
  hosts : ∀ σ : Scan, σ.Admits → Hosts σ (pieces text)

/-- A rewritten value is a pattern with the groups that have been missed. -/
theorem Rewritable.exists_read (h : Rewritable value) :
    ∃ x, read (String.ofList (convertCaptures value)) = .ok x ∧
      x.groupCount = (({} : Scan).past value).missed := by
  obtain ⟨x, hread, hfree⟩ := h.reads
  have hparens := h.classParens
  rw [← String.toList_ofList (l := value)] at hparens
  obtain ⟨_, _, _, -, -, -, -, hconverted⟩ := exists_read_converted
    (congruence_sameShape fun _ => True) hread hfree trivial hparens (.inl fun _ => trivial)
  rw [String.toList_ofList] at hconverted
  exact ⟨_, hconverted, rfl⟩

theorem Rewritable.puttable (h : Rewritable value) (hmissed : (({} : Scan).past value).missed = 0)
    (hplace : Placeable (convertCaptures value)) : Puttable (convertCaptures value) := by
  obtain ⟨x, hread, hgroups⟩ := h.exists_read
  have hinert := inert_of_read hread (hgroups.trans hmissed)
  rw [String.toList_ofList] at hinert
  exact ⟨hinert hplace.ne_nil hplace.verbose, hplace.sealed, hplace.last, hplace.hosts⟩

/-- Rewritten without its groups, a value that refers to none and has no opening parenthesis in a
class is a pattern again, with as many groups as the rewriting has missed.  If it has missed none in
any of the constants, every pattern keeps its groups when they are put in, as long as they can be
placed, and the references of the pattern stand where items may begin. -/
theorem interpolated_groups {values : List Char → Option (List Char)}
    (hvalues : ∀ name value, values name = some value → Rewritable value) :
    (∀ name value, values name = some value →
      ∃ x, read (String.ofList (convertCaptures value)) = .ok x ∧
        x.groupCount = (({} : Scan).past value).missed) ∧
    ((∀ name value, values name = some value →
        (({} : Scan).past value).missed = 0 ∧ Placeable (convertCaptures value)) →
      ∀ pattern : String, Sealed pattern.toList → Hosts {} (pieces pattern.toList) →
        KeepsGroups pattern.toList (substituteConstants (.converted values) pattern).1.toList) := by
  refine ⟨fun name value hvalue => (hvalues name value hvalue).exists_read,
    fun hplaced pattern hsealed hhosts => ?_⟩
  have hconstants : ∀ name text, Constants.converted values name = some text → Puttable text := by
    intro name text htext
    obtain ⟨value, hvalue, rfl⟩ := Option.map_eq_some_iff.mp htext
    obtain ⟨hmissed, hplace⟩ := hplaced name value hvalue
    exact (hvalues name value hvalue).puttable hmissed hplace
  have hready : Ready pattern.toList := ⟨hsealed, hhosts⟩
  rw [substituteConstants, String.toList_ofList]
  exact (hready.filled hconstants maxRounds).keepsGroups hhosts

theorem exists_ok_of_any {ε α : Type} {e : Except ε α} {p : α → Prop} [DecidablePred p]
    (h : (e.toOption.any fun x => decide (p x)) = true) : ∃ x, e = .ok x ∧ p x := by
  cases e with
  | error refusal => simp [Except.toOption] at h
  | ok x => exact ⟨x, rfl, by simpa [Except.toOption] using h⟩

/-- A price is made of counts, in which there is a named group. -/
def priceValues (name : List Char) : Option (List Char) :=
  if name = "COUNT".toList then some "(?P<count>\\d+)".toList
  else if name = "PRICE".toList then some "#{COUNT}(\\.\\d\\d)?".toList
  else none

theorem interpolated_groups_price :
    (∃ x, read (String.ofList (convertCaptures "(?P<count>\\d+)".toList)) = .ok x ∧
      x.groupCount = 0) ∧
    KeepsGroups "^(#{PRICE}) for #{ COUNT } (\\w+), #(\\d)$".toList
      "^((?:\\d+)(?:\\.\\d\\d)?) for (?:\\d+) (\\w+), #(\\d)$".toList := by
  have hcases : ∀ name value, priceValues name = some value →
      value = "(?P<count>\\d+)".toList ∨ value = "#{COUNT}(\\.\\d\\d)?".toList := by
    intro name value hvalue
    unfold priceValues at hvalue
    split at hvalue
    · exact .inl (Option.some.inj hvalue).symm
    split at hvalue
    · exact .inr (Option.some.inj hvalue).symm
    · cases hvalue
  have hvalues : ∀ name value, priceValues name = some value → Rewritable value := by
    intro name value hvalue
    obtain rfl | rfl := hcases name value hvalue
    · exact ⟨exists_ok_of_any (by decide +kernel), by decide +kernel⟩
    · exact ⟨exists_ok_of_any (by decide +kernel), by decide +kernel⟩
  have hplaced : ∀ name value, priceValues name = some value →
      (({} : Scan).past value).missed = 0 ∧ Placeable (convertCaptures value) := by
    intro name value hvalue
    obtain rfl | rfl := hcases name value hvalue
    · have hconverted : convertCaptures "(?P<count>\\d+)".toList = "(?:\\d+)".toList := by
        decide +kernel
      rw [hconverted]
      refine ⟨by decide +kernel, by decide +kernel, by decide +kernel, by decide +kernel,
        by decide +kernel, fun σ _ => ?_⟩
      exact Hosts.of_references_eq_nil (by decide +kernel)
    · have hconverted : convertCaptures "#{COUNT}(\\.\\d\\d)?".toList =
          "#{COUNT}(?:\\.\\d\\d)?".toList := by decide +kernel
      rw [hconverted]
      refine ⟨by decide +kernel, by decide +kernel, by decide +kernel, by decide +kernel,
        by decide +kernel, fun σ hσ => ?_⟩
      have hpieces : pieces "#{COUNT}(?:\\.\\d\\d)?".toList =
          .reference "COUNT".toList "#{COUNT}".toList ::
            "(?:\\.\\d\\d)?".toList.map .char := by decide +kernel
      rw [hpieces]
      exact ⟨fun _ => hσ, Hosts.of_references_eq_nil (by decide +kernel)⟩
  have htext : (substituteConstants (.converted priceValues)
      "^(#{PRICE}) for #{ COUNT } (\\w+), #(\\d)$").1 =
      "^((?:\\d+)(?:\\.\\d\\d)?) for (?:\\d+) (\\w+), #(\\d)$" := by decide +kernel
  have hkeeps := (interpolated_groups hvalues).2 hplaced
    "^(#{PRICE}) for #{ COUNT } (\\w+), #(\\d)$" (by decide +kernel) (by decide +kernel)
  rw [htext] at hkeeps
  exact ⟨(interpolated_groups hvalues).1 "COUNT".toList _ rfl, hkeeps⟩

/-- Behind an escaped backslash a group stays what it was. -/
theorem group_behind_backslash :
    (∃ x, read "\\\\(a)" = .ok x) ∧
      ∃ x, read (String.ofList (convertCaptures "\\\\(a)".toList)) = .ok x ∧ x.groupCount = 1 := by
  have hsame : convertCaptures "\\\\(a)".toList = "\\\\(a)".toList := by decide +kernel
  rw [hsame, String.ofList_toList]
  obtain ⟨x, hread, hcount⟩ : ∃ x, read "\\\\(a)" = .ok x ∧ x.groupCount = 1 :=
    exists_ok_of_any (by decide +kernel)
  exact ⟨⟨x, hread⟩, x, hread, hcount⟩

end StepTrace.Manifest
