import StepTrace.Proofs.Manifest.Pieces
import Mathlib.Data.Set.Finite.Basic
import Mathlib.Data.Set.Finite.List
import Mathlib.Order.WellFounded
import Mathlib.Order.RelClasses

/-!
# Expanding the constants of a pattern

`substituteConstants` works in rounds: a round takes the names that the pattern refers to and puts
them in one after the other, everywhere at once, in a text that changes under it.  `Expands` is the
plain recursion: every reference is replaced by the expansion of its own constant.  The two agree
when references run in no circle and the pattern is at most `maxRounds` deep.

Two facts carry the proof.  Putting a single constant in leaves the expansion of the text as it is
(`Expands.putConstant`), so the order of the names, and whether a name is put in twice, does not
matter.  And a round that has put in every name the pattern referred to has taken a level off it
(`within_expandNames`): what is still there came in with a constant.

The main result is `substituteConstants_eq_expansion`.
-/

namespace StepTrace.Manifest

open Text

/-! ## The expansion of a pattern -/

/-- The pieces expand to a text, through so many levels of constants.  The name of an unknown
constant stands for itself. -/
inductive Expands (constants : Constants) : List Piece → Nat → List Char → Prop
  | nil : Expands constants [] 0 []
  | char {c : Char} {ps : List Piece} {d : Nat} {t : List Char} (h : Expands constants ps d t) :
      Expands constants (.char c :: ps) d (c :: t)
  | unknown {name written : List Char} {ps : List Piece} {d : Nat} {t : List Char}
      (hname : constants name = none) (h : Expands constants ps d t) :
      Expands constants (.reference name written :: ps) (max 1 d) (name ++ t)
  | known {name written value : List Char} {ps : List Piece} {d e : Nat} {t u : List Char}
      (hname : constants name = some value) (hvalue : Expands constants (pieces value) e u)
      (h : Expands constants ps d t) :
      Expands constants (.reference name written :: ps) (max (e + 1) d) (u ++ t)

/-- The value of the one constant refers to the other. -/
def Constants.Names (constants : Constants) (outer inner : List Char) : Prop :=
  ∃ value, constants outer = some value ∧ inner ∈ references value

/-- No constant refers to itself, be it by way of others. -/
def Constants.Acyclic (constants : Constants) : Prop :=
  ∀ name, ¬Relation.TransGen constants.Names name name

variable {constants : Constants} {name value s t u : List Char} {ps qs : List Piece}
  {d e n : Nat}

theorem Expands.unique (h₁ : Expands constants ps d t) (h₂ : Expands constants ps e u) :
    d = e ∧ t = u := by
  induction h₁ generalizing e u with
  | nil => cases h₂; exact ⟨rfl, rfl⟩
  | char _ ih =>
    cases h₂ with
    | char h => obtain ⟨rfl, rfl⟩ := ih h; exact ⟨rfl, rfl⟩
  | unknown hname _ ih =>
    cases h₂ with
    | unknown _ h => obtain ⟨rfl, rfl⟩ := ih h; exact ⟨rfl, rfl⟩
    | known hother => simp [hname] at hother
  | known hname _ _ ihvalue ih =>
    cases h₂ with
    | unknown hother => simp [hname] at hother
    | known hother hvalue h =>
      obtain rfl : _ = _ := Option.some.inj (hname.symm.trans hother)
      obtain ⟨rfl, rfl⟩ := ihvalue hvalue
      obtain ⟨rfl, rfl⟩ := ih h
      exact ⟨rfl, rfl⟩

theorem Expands.append (h₁ : Expands constants ps d t) (h₂ : Expands constants qs e u) :
    Expands constants (ps ++ qs) (max d e) (t ++ u) := by
  induction h₁ with
  | nil => simpa using h₂
  | char _ ih => exact .char ih
  | unknown hname _ ih =>
    rw [max_assoc, List.append_assoc]
    exact .unknown hname ih
  | known hname hvalue _ _ ih =>
    rw [max_assoc, List.append_assoc]
    exact .known hname hvalue ih

/-- A text without references expands to itself. -/
theorem Expands.eq_of_references_eq_nil (h : Expands constants ps d t)
    (hnone : ps.filterMap Piece.name? = []) : t = ps.flatMap Piece.text := by
  induction h with
  | nil => rfl
  | char _ ih => rw [ih (by rwa [names_char] at hnone)]; rfl
  | unknown => simp [names_reference] at hnone
  | known => simp [names_reference] at hnone

theorem expands_of_not_mem (h : '#' ∉ s) : Expands constants (pieces s) 0 s := by
  rw [pieces_of_not_mem h]
  induction s with
  | nil => exact .nil
  | cons c s ih => exact .char (ih (by simp_all))

/-! ## An expansion exists -/

theorem exists_expands_of_references
    (h : ∀ name value, name ∈ ps.filterMap Piece.name? → constants name = some value →
      ∃ d t, Expands constants (pieces value) d t) : ∃ d t, Expands constants ps d t := by
  induction ps with
  | nil => exact ⟨0, [], .nil⟩
  | cons piece rest ih =>
    obtain ⟨d, t, hrest⟩ := ih fun name value hmem hvalue => by
      refine h name value ?_ hvalue
      rw [List.filterMap_cons]
      split
      · exact hmem
      · exact List.mem_cons_of_mem _ hmem
    cases piece with
    | char c => exact ⟨d, c :: t, .char hrest⟩
    | reference name written =>
      cases hname : constants name with
      | none => exact ⟨_, _, .unknown hname hrest⟩
      | some value =>
        obtain ⟨e, u, hvalue⟩ := h name value (by simp [names_reference]) hname
        exact ⟨_, _, .known hname hvalue hrest⟩

/-- Among finitely many constants without a circle, every pattern has an expansion. -/
theorem exists_expands (hfinite : {name | (constants name).isSome}.Finite)
    (hacyclic : constants.Acyclic) (ps : List Piece) :
    ∃ d t, Expands constants ps d t := by
  have : Finite {name // (constants name).isSome} := hfinite
  let below (inner outer : {name // (constants name).isSome}) : Prop :=
    Relation.TransGen constants.Names outer inner
  have : IsTrans _ below := ⟨fun _ _ _ h₁ h₂ => h₂.trans h₁⟩
  have : Std.Irrefl below := ⟨fun name h => hacyclic _ h⟩
  -- by induction downwards along the references
  have hdefined : ∀ name : {name // (constants name).isSome}, ∀ value,
      constants name = some value → ∃ d t, Expands constants (pieces value) d t := by
    intro name
    induction name using (Finite.wellFounded_of_trans_of_irrefl below).induction with
    | _ outer ih =>
      intro value hvalue
      refine exists_expands_of_references fun inner innerValue hmem hinner => ?_
      exact ih ⟨inner, by simp [hinner]⟩ (.single ⟨value, hvalue, hmem⟩) innerValue hinner
  exact exists_expands_of_references fun name value _ hvalue =>
    hdefined ⟨name, by simp [hvalue]⟩ value hvalue

/-! ## Putting in one constant -/

/-- Wherever a constant is put in, the text expands to what it expanded to before. -/
theorem Expands.flatMap_putPiece (h : Expands constants ps d t)
    (hname : ∀ written d' u, Expands constants [.reference name written] d' u →
      ∃ d'', Expands constants (pieces value) d'' u) :
    ∃ d', Expands constants (ps.flatMap (putPiece name value)) d' t := by
  -- what stands for a single piece expands as the piece does
  have hstep : ∀ {piece : Piece} {d u}, Expands constants [piece] d u →
      ∃ d', Expands constants (putPiece name value piece) d' u := by
    intro piece d u hpiece
    unfold putPiece
    split
    next heq =>
      cases piece with
      | char c => simp [Piece.name?] at heq
      | reference other written =>
        obtain rfl : other = name := by simpa [Piece.name?] using heq
        exact hname written _ _ hpiece
    next => exact ⟨_, hpiece⟩
  induction h with
  | nil => exact ⟨0, .nil⟩
  | @char c _ _ _ h ih =>
    obtain ⟨d', hrest⟩ := ih
    obtain ⟨e', hpiece⟩ := hstep (.char (c := c) .nil)
    exact ⟨_, hpiece.append hrest⟩
  | @unknown _ written _ _ _ hother h ih =>
    obtain ⟨d', hrest⟩ := ih
    have hsingle : Expands constants [.reference _ written] _ _ := .unknown hother .nil
    obtain ⟨e', hpiece⟩ := hstep hsingle
    rw [List.append_nil] at hpiece
    exact ⟨_, hpiece.append hrest⟩
  | @known _ written _ _ _ _ _ _ hother hvalue h _ ih =>
    obtain ⟨d', hrest⟩ := ih
    have hsingle : Expands constants [.reference _ written] _ _ := .known hother hvalue .nil
    obtain ⟨e', hpiece⟩ := hstep hsingle
    rw [List.append_nil] at hpiece
    exact ⟨_, hpiece.append hrest⟩

theorem Expands.putConstant (hs : SignsRefer s) (hvalue : SignsRefer value)
    (hname : constants name = some value) (h : Expands constants (pieces s) d t) :
    ∃ d', Expands constants (pieces (putConstant name value s)) d' t := by
  rw [pieces_putConstant hs hvalue]
  refine h.flatMap_putPiece fun written d' u hu => ?_
  cases hu with
  | unknown hother => simp [hname] at hother
  | known hother hinner hnil =>
    obtain rfl : _ = _ := Option.some.inj (hname.symm.trans hother)
    cases hnil
    exact ⟨_, by simpa using hinner⟩

theorem Expands.putConstant_name (hs : SignsRefer s) (hword : ∀ c ∈ name, isWord c = true)
    (hname : constants name = none) (h : Expands constants (pieces s) d t) :
    ∃ d', Expands constants (pieces (Manifest.putConstant name name s)) d' t := by
  have hsign := not_mem_of_isWord hword
  rw [pieces_putConstant hs (signsRefer_of_not_mem hsign)]
  refine h.flatMap_putPiece fun written d' u hu => ?_
  cases hu with
  | unknown _ hnil => cases hnil; exact ⟨0, by simpa using expands_of_not_mem hsign⟩
  | known hother => simp [hname] at hother

/-! ## Levels -/

/-- The constant is unknown, or within so many levels everything it refers to is settled. -/
def Within (constants : Constants) : Nat → List Char → Prop
  | 0, _ => False
  | n + 1, name =>
    ∀ value, constants name = some value → ∀ inner ∈ references value, Within constants n inner

theorem Within.succ (h : Within constants n name) : Within constants (n + 1) name := by
  induction n generalizing name with
  | zero => exact h.elim
  | succ n ih => exact fun value hvalue inner hinner => ih (h value hvalue inner hinner)

theorem Expands.within (h : Expands constants ps d t) (hle : d ≤ n)
    (hmem : name ∈ ps.filterMap Piece.name?) : Within constants n name := by
  induction h generalizing n name with
  | nil => simp at hmem
  | char _ ih => exact ih hle (by rwa [names_char] at hmem)
  | unknown hname _ ih =>
    obtain ⟨m, rfl⟩ : ∃ m, n = m + 1 := ⟨n - 1, by omega⟩
    rw [names_reference] at hmem
    obtain rfl | hmem := List.mem_cons.mp hmem
    · intro value hvalue
      simp [hname] at hvalue
    · exact ih (by omega) hmem
  | known hname _ _ ihvalue ih =>
    obtain ⟨m, rfl⟩ : ∃ m, n = m + 1 := ⟨n - 1, by omega⟩
    rw [names_reference] at hmem
    obtain rfl | hmem := List.mem_cons.mp hmem
    · intro value hvalue inner hinner
      obtain rfl : _ = _ := Option.some.inj (hname.symm.trans hvalue)
      exact ihvalue (by omega) hinner
    · exact ih (by omega) hmem

/-! ## A round -/

/-- The constants of a manifest all have their number signs in order. -/
def Constants.SignsRefer (constants : Constants) : Prop :=
  ∀ name value, constants name = some value → Manifest.SignsRefer value

/-- What is put in for a name: the constant, or the name itself. -/
def Constants.valueFor (constants : Constants) (name : List Char) : List Char :=
  (constants name).getD name

theorem expandNames_cons (constants : Constants) (name : List Char) (names : List (List Char))
    (s : List Char) :
    (expandNames constants (name :: names) s).1 =
      (expandNames constants names (putConstant name (constants.valueFor name) s)).1 := by
  rw [expandNames, Constants.valueFor]
  cases constants name <;> rfl

/-- What a round keeps of the text, as each name is put in: its number signs are in order, and it
expands to `t`. -/
structure Settling (constants : Constants) (t s : List Char) : Prop where
  signs : SignsRefer s
  expands : ∃ d, Expands constants (pieces s) d t

theorem signsRefer_valueFor (hconstants : constants.SignsRefer)
    (hword : ∀ c ∈ name, isWord c = true) : SignsRefer (constants.valueFor name) := by
  unfold Constants.valueFor
  cases hname : constants name with
  | some value => exact hconstants name value hname
  | none => exact signsRefer_of_not_mem (not_mem_of_isWord hword)

theorem Settling.putConstant (hconstants : constants.SignsRefer)
    (hword : ∀ c ∈ name, isWord c = true) (h : Settling constants t s) :
    Settling constants t (putConstant name (constants.valueFor name) s) := by
  have hvalue := signsRefer_valueFor hconstants hword
  obtain ⟨d, hexpands⟩ := h.expands
  refine ⟨signsRefer_putConstant h.signs hvalue, ?_⟩
  unfold Constants.valueFor at hvalue ⊢
  cases hname : constants name with
  | some value =>
    rw [hname] at hvalue
    exact hexpands.putConstant h.signs hvalue hname
  | none => exact hexpands.putConstant_name h.signs hword hname

theorem Settling.expandNames {names : List (List Char)} (hconstants : constants.SignsRefer)
    (hword : ∀ name ∈ names, ∀ c ∈ name, isWord c = true) (h : Settling constants t s) :
    Settling constants t (expandNames constants names s).1 := by
  induction names generalizing s with
  | nil => exact h
  | cons name names ih =>
    rw [expandNames_cons]
    exact ih (fun other hmem => hword other (by simp [hmem]))
      (h.putConstant hconstants (hword name (by simp)))

/-- What comes in with a constant lies a level below it. -/
theorem within_of_mem_valueFor (hword : ∀ c ∈ name, isWord c = true)
    (hname : Within constants (n + 1) name) {inner : List Char}
    (hinner : inner ∈ references (constants.valueFor name)) : Within constants n inner := by
  unfold Constants.valueFor at hinner
  cases hvalue : constants name with
  | some value => exact hname value hvalue inner (by simpa [hvalue] using hinner)
  | none =>
    rw [hvalue, Option.getD_none] at hinner
    -- a bare name has no references
    have hexpands : Expands constants (pieces name) 0 name :=
      expands_of_not_mem (not_mem_of_isWord hword)
    exact (hexpands.within le_rfl hinner).elim

/-- A round that puts in every name still on the level takes the text down a level. -/
theorem within_expandNames {names : List (List Char)} (hconstants : constants.SignsRefer)
    (hword : ∀ name ∈ names, ∀ c ∈ name, isWord c = true) (hs : SignsRefer s)
    (h : ∀ name ∈ references s,
      Within constants n name ∨ (name ∈ names ∧ Within constants (n + 1) name)) :
    ∀ name ∈ references (expandNames constants names s).1, Within constants n name := by
  induction names generalizing s with
  | nil => exact fun name hmem => (h name hmem).resolve_right (by simp)
  | cons name names ih =>
    rw [expandNames_cons]
    have hvalue := signsRefer_valueFor hconstants (hword name (by simp))
    refine ih (fun other hmem => hword other (by simp [hmem]))
      (signsRefer_putConstant hs hvalue) fun other hother => ?_
    obtain ⟨hmem, hne⟩ | ⟨hmem, hinner⟩ := mem_references_putConstant hs hvalue hother
    · refine (h other hmem).imp_right fun ⟨hnames, hlevel⟩ => ⟨?_, hlevel⟩
      exact (List.mem_cons.mp hnames).resolve_left hne
    · have hlevel : Within constants (n + 1) name := (h name hmem).elim .succ And.right
      exact .inl (within_of_mem_valueFor (hword name (by simp)) hlevel hinner)

/-! ## All rounds -/

theorem Settling.eq_of_references_eq_nil (h : Settling constants t s)
    (hnone : references s = []) : t = s := by
  obtain ⟨d, hexpands⟩ := h.expands
  rw [hexpands.eq_of_references_eq_nil hnone, flatMap_text_pieces h.signs]

/-- As many rounds as the text has levels leave its expansion, which refers to nothing. -/
theorem expandRounds_eq (hconstants : constants.SignsRefer) (h : Settling constants t s)
    (hlevel : ∀ name ∈ references s, Within constants n name) :
    (expandRounds constants n s).1 = t ∧ references t = [] := by
  induction n generalizing s with
  | zero =>
    have hnone : references s = [] := List.eq_nil_iff_forall_not_mem.mpr hlevel
    rw [h.eq_of_references_eq_nil hnone]
    exact ⟨rfl, hnone⟩
  | succ n ih =>
    rw [expandRounds]
    cases hnames : references s with
    | nil =>
      rw [h.eq_of_references_eq_nil hnames]
      exact ⟨rfl, hnames⟩
    | cons name names =>
      have hword : ∀ other ∈ name :: names, ∀ c ∈ other, isWord c = true := fun other hmem =>
        isWord_of_mem_references h.signs (hnames ▸ hmem)
      refine ih (h.expandNames hconstants hword) ?_
      refine within_expandNames hconstants hword h.signs fun other hmem => .inr ⟨?_, ?_⟩
      · rwa [← hnames]
      · exact hlevel other hmem

/-! ## The constants of a mapping -/

theorem exists_of_lookup?_eq_some {v found : Value} {key : String}
    (h : v.lookup? key = some found) :
    ∃ fields, v.untied = .map fields ∧ (Value.text key, found) ∈ fields := by
  obtain ⟨fields, huntied, hfind⟩ :
      ∃ fields, v.untied = .map fields ∧ Value.findField? key fields = some found := by
    unfold Value.lookup? at h
    split at h
    · exact ⟨_, rfl, h⟩
    · split at h
      · exact ⟨_, ‹_›, h⟩
      · cases h
    · cases h
  obtain ⟨field, hfield, rfl⟩ := Option.map_eq_some_iff.mp hfind
  have hkey : field.1 = .text key := Value.isText_iff.mp (by simpa using List.find?_some hfield)
  exact ⟨fields, huntied, hkey ▸ List.mem_of_find?_eq_some hfield⟩

/-- The names of the text keys of a mapping. -/
def keyName : Value × Value → List Char
  | (.text key, _) => key.toList
  | _ => []

/-- A constant of a mapping is the cleaned text of one of its fields. -/
theorem exists_of_ofValue_eq_some {v : Value} (h : Constants.ofValue v name = some value) :
    ∃ fields, v.untied = .map fields ∧ ∃ field ∈ fields, keyName field = name ∧
      cleanConstant field.2.display.toList = value := by
  obtain ⟨found, hfound, rfl⟩ := Option.map_eq_some_iff.mp h
  obtain ⟨fields, hfields, hmem⟩ := exists_of_lookup?_eq_some hfound
  exact ⟨fields, hfields, _, hmem, by simp [keyName], rfl⟩

theorem finite_ofValue (v : Value) : {name | (Constants.ofValue v name).isSome}.Finite := by
  cases hv : v.untied with
  | map fields =>
    refine (List.finite_toSet (fields.map keyName)).subset fun name hname => ?_
    obtain ⟨value, hvalue⟩ := Option.isSome_iff_exists.mp hname
    obtain ⟨fields', hfields, field, hmem, hkey, -⟩ := exists_of_ofValue_eq_some hvalue
    obtain rfl : fields = fields' := by simpa [hv] using hfields
    exact List.mem_map.mpr ⟨field, hmem, hkey⟩
  | _ =>
    refine Set.Finite.subset Set.finite_empty fun name hname => ?_
    obtain ⟨value, hvalue⟩ := Option.isSome_iff_exists.mp hname
    obtain ⟨fields', hfields, -⟩ := exists_of_ofValue_eq_some hvalue
    simp [hv] at hfields

/-- References that lead down in some numbering of the names run in no circle. -/
theorem Constants.Acyclic.of_rank {rank : List Char → Nat}
    (h : ∀ outer inner, constants.Names outer inner → rank inner < rank outer) :
    constants.Acyclic := by
  intro name hcircle
  have hdown : ∀ {outer inner}, Relation.TransGen constants.Names outer inner →
      rank inner < rank outer := by
    intro outer inner hpath
    induction hpath with
    | single hstep => exact h _ _ hstep
    | tail _ hstep ih => exact (h _ _ hstep).trans ih
  exact absurd (hdown hcircle) (lt_irrefl _)

/-- If every number sign of the pattern and of the cleaned constants begins a reference, and no
constant refers to itself by way of others, the pattern has exactly one expansion; and if that is at
most `maxRounds` levels deep it is what the rounds give, and refers to nothing any more. -/
theorem substituteConstants_eq_expansion {v : Value} {pattern : String}
    (hpattern : SignsRefer pattern.toList) (hconstants : (Constants.ofValue v).SignsRefer)
    (hacyclic : (Constants.ofValue v).Acyclic) :
    (∃! e : Nat × List Char, Expands (.ofValue v) (pieces pattern.toList) e.1 e.2) ∧
      ∀ depth text, Expands (.ofValue v) (pieces pattern.toList) depth text → depth ≤ maxRounds →
        (substituteConstants (.ofValue v) pattern).1 = String.ofList text ∧
          references text = [] := by
  refine ⟨?_, fun depth text hexpands hdepth => ?_⟩
  · obtain ⟨depth, text, hexpands⟩ :=
      exists_expands (finite_ofValue v) hacyclic (pieces pattern.toList)
    refine ⟨(depth, text), hexpands, fun other hother => ?_⟩
    obtain ⟨hdepth, htext⟩ := hother.unique hexpands
    exact Prod.ext hdepth htext
  · have hrounds := expandRounds_eq hconstants ⟨hpattern, depth, hexpands⟩
      fun name hmem => hexpands.within hdepth hmem
    exact ⟨congrArg String.ofList hrounds.1, hrounds.2⟩

/-- A number that is made of two other constants, one of which has a longer name that begins as its
own. -/
def numberFields : List (Value × Value) :=
  [(.text "N", .text "/^#{SIGN}#{ N_1 }$/"), (.text "N_1", .text "[1-9]\\d*"),
    (.text "SIGN", .text "(-)?")]

theorem substituteConstants_eq_expansion_numbers :
    let constants := Constants.ofValue (.map numberFields)
    let pattern := "^#{N}-#{N}, #{N_1} #{ UNIT}"
    let text := "^(?:-)?[1-9]\\d*-(?:-)?[1-9]\\d*, [1-9]\\d* UNIT"
    SignsRefer pattern.toList ∧ constants.SignsRefer ∧ constants.Acyclic ∧
      Expands constants (pieces pattern.toList) 2 text.toList ∧
      (substituteConstants constants pattern).1 = text := by
  intro constants pattern text
  have hpattern : SignsRefer pattern.toList := by decide +kernel
  have hconstants : constants.SignsRefer := by
    have hfields : ∀ field ∈ numberFields,
        SignsRefer (cleanConstant field.2.display.toList) := by decide +kernel
    intro name value hvalue
    obtain ⟨_, hmap, field, hmem, -, rfl⟩ := exists_of_ofValue_eq_some hvalue
    obtain rfl := Value.map.inj hmap
    exact hfields field hmem
  have hacyclic : constants.Acyclic := by
    let rank (name : List Char) : Nat := if name = ['N'] then 1 else 0
    have hfields : ∀ field ∈ numberFields,
        ∀ inner ∈ references (cleanConstant field.2.display.toList),
          rank inner < rank (keyName field) := by decide +kernel
    have hrank : ∀ outer inner, constants.Names outer inner → rank inner < rank outer := by
      rintro outer inner ⟨value, hvalue, hinner⟩
      obtain ⟨_, hmap, field, hmem, rfl, rfl⟩ := exists_of_ofValue_eq_some hvalue
      obtain rfl := Value.map.inj hmap
      exact hfields field hmem inner hinner
    exact .of_rank hrank
  have hexpands : Expands constants (pieces pattern.toList) 2 text.toList := by
    have hsign : constants "SIGN".toList = some "(?:-)?".toList := by decide +kernel
    have hone : constants "N_1".toList = some "[1-9]\\d*".toList := by decide +kernel
    have hnumber : constants "N".toList = some "#{SIGN}#{ N_1 }".toList := by decide +kernel
    have hunit : constants "UNIT".toList = none := by decide +kernel
    have hinner : Expands constants (pieces "#{SIGN}#{ N_1 }".toList) 1
        "(?:-)?[1-9]\\d*".toList := by
      have hpieces : pieces "#{SIGN}#{ N_1 }".toList =
          [.reference "SIGN".toList "#{SIGN}".toList,
            .reference "N_1".toList "#{ N_1 }".toList] := by decide +kernel
      rw [hpieces]
      exact .known hsign (expands_of_not_mem (by decide))
        (.known hone (expands_of_not_mem (by decide)) .nil)
    have hpieces : pieces pattern.toList =
        [.char '^', .reference "N".toList "#{N}".toList, .char '-',
          .reference "N".toList "#{N}".toList, .char ',', .char ' ',
          .reference "N_1".toList "#{N_1}".toList, .char ' ',
          .reference "UNIT".toList "#{ UNIT}".toList] := by decide +kernel
    rw [hpieces]
    have hlast : Expands constants [.char ' ', .reference "UNIT".toList "#{ UNIT}".toList] _ _ :=
      .char (.unknown hunit .nil)
    have hend : Expands constants (.reference "N_1".toList "#{N_1}".toList :: _) _ _ :=
      .known hone (expands_of_not_mem (by decide)) hlast
    have hrest : Expands constants
        (.reference "N".toList "#{N}".toList :: .char ',' :: .char ' ' :: _) _ _ :=
      .known hnumber hinner (.char (.char hend))
    have hwhole : Expands constants
        (.char '^' :: .reference "N".toList "#{N}".toList :: .char '-' :: _) _ _ :=
      .char (.known hnumber hinner (.char hrest))
    simpa [text] using hwhole
  have hresult := (substituteConstants_eq_expansion hpattern hconstants hacyclic).2 2 _ hexpands
    (by decide)
  exact ⟨hpattern, hconstants, hacyclic, hexpands, by rw [hresult.1, String.ofList_toList]⟩

end StepTrace.Manifest
