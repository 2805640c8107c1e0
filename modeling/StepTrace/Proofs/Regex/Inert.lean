import StepTrace.Proofs.Regex.Runs

/-!
# Texts that may be put into a pattern

Behind a text that is put in where an item may begin, the scan of the pattern should stand as behind
an item that is no group: in the groups that were open before, and with no group more.  Such a text
is `Inert`.

A pattern without groups of its own is inert unless it is empty or has blanks passed over from there
on (`inert_of_read`), and so is a text without brackets and backslashes (`inert_of_plain`).

Only a part of a scan decides how many groups are counted later on, its `gist`; two scans with the
same gist have it behind the same text again (`Scan.gist_past_congr`).
-/

namespace StepTrace.Regex

open Reader

namespace Scan

variable {σ τ : Scan} {t : Token} {s : List Char}

/-! ## What the count of groups depends on -/

/-- The scan without what a rewriting of groups can trip over. -/
def gist (σ : Scan) : Scan :=
  { σ with slashed := false, guarded := false, missed := 0, classParens := 0, flagged := 0 }

theorem gist_eq_iff : σ.gist = τ.gist ↔ σ.place = τ.place ∧ σ.verbose = τ.verbose ∧
    σ.outer = τ.outer ∧ σ.pending = τ.pending ∧ σ.openings = τ.openings := by
  simp [gist]

theorem gist_atPlace (σ : Scan) (t : Token) : (σ.atPlace t).gist = (σ.gist.atPlace t).gist := by
  have hitem : ∀ σ τ : Scan, σ.gist = τ.gist → (σ.atItem t).gist = (τ.atItem t).gist := by
    intro σ τ h
    obtain ⟨hplace, hverbose, houter, hpending, hopenings⟩ := gist_eq_iff.mp h
    unfold atItem
    split <;> simp [gist, hverbose, houter, hpending, hopenings]
  have hplace : σ.gist.place = σ.place := rfl
  unfold atPlace
  rw [hplace]
  split
  case h_1 => exact hitem _ _ rfl
  case h_2 =>
    split
    · rfl
    · exact hitem _ _ rfl
  case h_3 =>
    unfold atQuestion
    split
    case h_5 => split <;> rfl
    all_goals rfl
  case h_6 =>
    unfold atName
    split <;> rfl
  case h_7 =>
    unfold atFlags
    split <;> rfl
  case h_8 =>
    split
    · rfl
    split <;> rfl
  case h_9 => split <;> rfl
  case h_11 => split <;> rfl
  all_goals rfl

theorem gist_next (σ : Scan) (t : Token) : (σ.next t).gist = (σ.gist.next t).gist := by
  obtain ⟨hplace, hverbose, houter, -, hopenings⟩ := gist_eq_iff.mp (gist_atPlace σ t)
  exact gist_eq_iff.mpr ⟨hplace, hverbose, houter, rfl, hopenings⟩

theorem gist_step (σ : Scan) (c : Char) : (σ.step c).gist = (σ.gist.step c).gist := by
  have hpending : σ.gist.pending = σ.pending := rfl
  unfold step
  rw [hpending]
  split
  · exact gist_next _ _
  split
  · rfl
  · exact gist_next _ _

theorem gist_past (σ : Scan) (s : List Char) : (σ.past s).gist = (σ.gist.past s).gist := by
  induction s generalizing σ with
  | nil => rfl
  | cons c s ih =>
    have hcons : ∀ σ : Scan, σ.past (c :: s) = (σ.step c).past s := fun _ => rfl
    rw [hcons, hcons, ih, ih (σ.gist.step c), gist_step]

theorem gist_past_congr (h : σ.gist = τ.gist) (s : List Char) :
    (σ.past s).gist = (τ.past s).gist := by
  rw [gist_past, h, ← gist_past]

theorem openings_eq_of_gist (h : σ.gist = τ.gist) : σ.openings = τ.openings :=
  (gist_eq_iff.mp h).2.2.2.2

/-! ## Where an item may begin -/

/-- An item may begin here, and blanks count. -/
structure Admits (σ : Scan) : Prop where
  place : σ.place = .item ∨ σ.place = .opened
  verbose : σ.verbose = false
  pending : σ.pending = false

instance (σ : Scan) : Decidable σ.Admits :=
  decidable_of_iff ((σ.place = .item ∨ σ.place = .opened) ∧ σ.verbose = false ∧ σ.pending = false)
    ⟨fun h => ⟨h.1, h.2.1, h.2.2⟩, fun h => ⟨h.place, h.verbose, h.pending⟩⟩

theorem Admits.congr (h : σ.Admits) (heq : σ.gist = τ.gist) : τ.Admits := by
  obtain ⟨hplace, hverbose, -, hpending, -⟩ := gist_eq_iff.mp heq
  exact ⟨hplace ▸ h.place, hverbose ▸ h.verbose, hpending ▸ h.pending⟩

/-- The state behind an item that is no group.  If it stands behind an opening parenthesis this one
has turned out to begin a plain group. -/
def passed (σ : Scan) : Scan :=
  if σ.place = .opened then σ.capture false else σ

theorem gist_passed_congr (h : σ.gist = τ.gist) : σ.passed.gist = τ.passed.gist := by
  obtain ⟨hplace, hverbose, houter, hpending, hopenings⟩ := gist_eq_iff.mp h
  unfold passed
  rw [hplace]
  split
  · simp [gist, capture, enter, hverbose, houter, hpending, hopenings]
  · exact h

/-- Behind an opening parenthesis a text that does not begin with a question mark is the inside of a
plain group. -/
theorem past_opened (hplace : σ.place = .opened) (hpending : σ.pending = false) (hne : s ≠ [])
    (hlone : s ≠ ['\\']) (hhead : s.head? ≠ some '?') :
    σ.past s = (σ.capture σ.guarded).past s := by
  obtain ⟨⟨t, rest⟩, hnext⟩ : ∃ p, nextToken? s = some p :=
    Option.ne_none_iff_exists'.mp fun hnone => hne (nextToken?_eq_none hnone)
  obtain ⟨rfl, ht⟩ := nextToken?_eq_some hlone hnext
  have hquestion : t ≠ .plain '?' := by
    rintro rfl
    exact hhead rfl
  have hpending' : (σ.capture σ.guarded).pending = false := hpending
  rw [past_append, past_append, past_chars hpending ht, past_chars hpending' ht,
    next_opened hplace hquestion]

/-! ## Remarks -/

/-- Only where blanks are passed over there are remarks up to the end of the line. -/
def NoRemark (σ : Scan) : Prop :=
  ∀ opens, σ.place = .passing '\n' opens → σ.verbose = true

theorem NoRemark.atPlace (h : σ.NoRemark) (t : Token) : (σ.atPlace t).NoRemark := by
  -- A remark is entered at an item only.
  have hitem : ∀ σ : Scan, (σ.atItem t).NoRemark := by
    intro σ opens hplace
    unfold atItem at hplace ⊢
    split
    case h_4 =>
      cases hverbose : σ.verbose with
      | true => rfl
      | false => simp [hverbose] at hplace
    all_goals simp at hplace
  have hclass : (σ.inClass t).NoRemark := fun opens hplace => by simp [inClass] at hplace
  intro opens
  unfold Scan.atPlace
  split
  case h_1 => exact hitem _ opens
  case h_2 =>
    split
    · simp
    · exact hitem _ opens
  case h_3 =>
    unfold atQuestion
    split
    case h_5 => split <;> simp [enter]
    all_goals simp [enter]
  case h_4 => split <;> simp
  case h_5 => simp [enter]
  case h_6 =>
    unfold atName
    split <;> simp [capture, enter]
  case h_7 state hplace =>
    unfold atFlags
    split
    case h_4 => exact h opens
    all_goals simp [enter]
  case h_8 =>
    split
    · exact h opens
    split <;> simp [enter]
  case h_9 =>
    split
    · simp
    · exact hclass opens
  case h_10 => exact hclass opens
  case h_11 =>
    split
    · simp
    · exact hclass opens

theorem NoRemark.next (h : σ.NoRemark) (t : Token) : (σ.next t).NoRemark :=
  h.atPlace t

theorem NoRemark.past (h : σ.NoRemark) (s : List Char) : (σ.past s).NoRemark := by
  induction s generalizing σ with
  | nil => exact h
  | cons c s ih =>
    refine ih ?_
    unfold step
    split
    · exact NoRemark.next (σ := { σ with pending := false }) h _
    split
    · exact h
    · exact h.next _

end Scan

/-! ## Inert texts -/

/-- Behind the text, put in where an item may begin, the scan stands as behind an item that is no
group. -/
def Inert (s : List Char) : Prop :=
  ∀ σ : Scan, σ.Admits → (σ.past s).gist = σ.passed.gist

variable {s : List Char}

/-- Only the place behind an item has to be looked at. -/
theorem inert_of_item (hne : s ≠ []) (hhead : s.head? ≠ some '?')
    (h : ∀ σ : Scan, σ.place = .item → σ.verbose = false → σ.pending = false →
      (σ.past s).gist = σ.gist) : Inert s := by
  intro σ hσ
  obtain hplace | hplace := hσ.place
  · have hpassed : σ.passed = σ := if_neg (by simp [hplace])
    rw [hpassed]
    exact h σ hplace hσ.verbose hσ.pending
  · have hlone : s ≠ ['\\'] := by
      rintro rfl
      have hpending := (Scan.gist_eq_iff.mp (h {} rfl rfl rfl)).2.2.2.1
      exact absurd hpending (by decide)
    have hpassed : σ.passed.gist = (σ.capture σ.guarded).gist := by
      rw [Scan.passed, if_pos hplace]
      rfl
    rw [Scan.past_opened hplace hσ.pending hne hlone hhead, hpassed]
    exact h _ rfl hσ.verbose hσ.pending

/-- A text in which nothing is bracketed and no backslash stands. -/
theorem inert_of_plain (hne : s ≠ []) (h : ∀ c ∈ s, c ∉ ['(', ')', '[', '\\', '?']) : Inert s := by
  refine inert_of_item hne ?_ fun σ hplace hverbose hpending => ?_
  · intro hhead
    exact h _ (List.mem_of_mem_head? hhead) (by simp)
  -- a number sign begins no remark, as blanks count
  have hstep : ∀ (σ : Scan) (c : Char), σ.place = .item → σ.verbose = false → σ.pending = false →
      c ∉ ['(', ')', '[', '\\', '?'] → σ.step c = σ.moved .item false := by
    intro σ c hplace hverbose hpending hc
    simp only [List.mem_cons, List.not_mem_nil, or_false, not_or] at hc
    rw [Scan.step, hpending, if_neg (by simp), if_neg hc.2.2.2.1,
      Scan.next_item hplace (by simp [hc]) fun _ => hverbose]
    rfl
  induction s generalizing σ with
  | nil => exact absurd rfl hne
  | cons c s ih =>
    have hcons : σ.past (c :: s) = (σ.step c).past s := rfl
    have hgist : (σ.moved .item false).gist = σ.gist :=
      Scan.gist_eq_iff.mpr ⟨hplace.symm, rfl, rfl, hpending.symm, rfl⟩
    rw [hcons, hstep σ c hplace hverbose hpending (h c (by simp)), ← hgist]
    by_cases hs : s = []
    · rw [hs]
      rfl
    · exact ih hs (fun d hd => h d (List.mem_cons_of_mem _ hd)) _ rfl hverbose rfl

/-- Whatever groups are around it, the scan of a pattern ends in them, with the groups of the pattern
counted. -/
theorem exists_has_past {source : String} {x : Regex} (h : read source = .ok x) :
    ∃ verbose, ∀ σ : Scan, σ.place = .item → σ.verbose = false → σ.pending = false →
      (σ.past source.toList).AtItem [] ∧
        (σ.past source.toList).Has verbose σ.outer (σ.openings + x.groupCount) := by
  obtain ⟨hlone, parts, r, hreads, hpasses, rfl⟩ := read_eq_ok_iff.mp h
  obtain ⟨ts, hspans, -, hscan⟩ := hreads.inStep hlone fun h => by cases h
  refine ⟨r.flags.verbose, fun σ hplace hverbose hpending => ?_⟩
  rw [Scan.past_spans hpending hspans, hpasses.rest]
  rw [hpasses.rest] at hscan
  exact hscan σ σ.outer σ.openings (.inl hplace) ⟨hpending, hverbose, rfl, rfl⟩

/-- No pattern begins with a question mark. -/
theorem head?_of_read {source : String} {x : Regex} (h : read source = .ok x) :
    source.toList.head? ≠ some '?' := by
  intro hhead
  obtain ⟨rest, hsource⟩ : ∃ rest, source.toList = '?' :: rest := by
    cases hs : source.toList with
    | nil => simp [hs] at hhead
    | cons c rest => exact ⟨rest, by simpa [hs] using hhead⟩
  obtain ⟨-, parts, r, hreads, -⟩ := read_eq_ok_iff.mp h
  have hnext : next? ({ rest := source.toList } : Reading) = some (.plain '?') := by
    rw [hsource]
    rfl
  -- a question mark repeats the item before it, and there is none
  have hsequence : ∀ {r r₁ : Reading} {parts : List Expr}, next? r = some (.plain '?') →
      ¬Reads (.sequence none true []) r parts r₁ := by
    intro r r₁ parts hnext hreads
    have htakes : ∀ {t : Token} {r₁ : Reading}, Takes t r r₁ → t = .plain '?' := fun htake =>
      Option.some.inj (htake.next?.symm.trans hnext)
    cases hreads with
    | done hdone => simp [hnext] at hdone
    | single htake hc =>
      cases htakes htake
      simp at hc
    | escape htake => cases htakes htake
    | remark htake => cases htakes htake
    | charClass htake => cases htakes htake
    | brace htake => cases htakes htake
    | group htake => cases htakes htake
  cases hreads with
  | alternatives h =>
    cases h with
    | lastBranch h => exact hsequence hnext h
    | branch h => exact hsequence hnext h

/-- A pattern without groups is inert, unless it is empty or what follows it would be read with its
blanks passed over. -/
theorem inert_of_read {source : String} {x : Regex} (h : read source = .ok x)
    (hgroups : x.groupCount = 0) (hne : source.toList ≠ [])
    (hverbose : (({} : Scan).past source.toList).verbose = false) : Inert source.toList := by
  refine inert_of_item hne (head?_of_read h) fun σ hplace hσ hpending => ?_
  obtain ⟨verbose, hall⟩ := exists_has_past h
  have hfalse : verbose = false := (hall {} rfl rfl rfl).2.verbose.symm.trans hverbose
  obtain ⟨hitem, hhas⟩ := hall σ hplace hσ hpending
  rw [hfalse, hgroups] at hhas
  have hnone : σ.NoRemark := fun opens hpassing => by simp [hplace] at hpassing
  refine Scan.gist_eq_iff.mpr ⟨?_, hhas.verbose.trans hσ.symm, hhas.outer,
    hhas.pending.trans hpending.symm, hhas.openings⟩
  obtain hitem | ⟨-, hremark⟩ := hitem
  · rw [hitem, hplace]
  · exact absurd (hnone.past _ _ hremark) (by simp [hhas.verbose])

end StepTrace.Regex
