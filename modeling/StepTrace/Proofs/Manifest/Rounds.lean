import StepTrace.Proofs.Manifest.Expansion
import Mathlib.Logic.Function.Iterate

/-!
# The last round

Expansion stops when a pattern has no interpolations any more, or when the rounds are used up; in
the second case there is a warning that the pattern did not settle.  Whether anything is left is
looked at before a round and not after the last one.  So a pattern that needs exactly `maxRounds`
rounds is warned about though it has settled, and this is the only case in which the warning is not
true: what is left over always gives a warning (`substituteConstants_warns_iff`).

Nothing is assumed here about the constants: they may refer to each other in circles, and number
signs may stand anywhere.  A pattern that is less than `maxRounds` levels deep gives no warning
(`substituteConstants_silent`).
-/

namespace StepTrace.Manifest

variable {constants : Constants} {name : List Char} {s t : List Char} {n : Nat}

/-! ## Interpolations -/

/-- The text has an interpolation somewhere. -/
def Interpolated (s : List Char) : Prop :=
  ∃ before name written after, s = before ++ (written ++ after) ∧ Refers name written

theorem references_of_refers {written : List Char} (h : Refers name written) (t : List Char) :
    references (written ++ t) = name :: references t := by
  rw [references, pieces_append_of_refers h, names_reference, references]

theorem references_cons {c : Char} (h : reference? (c :: s) = none) :
    references (c :: s) = references s := by
  rw [references, pieces]
  split
  case h_1 hsome => rw [h] at hsome; cases hsome
  case h_2 => exact names_char c _

/-- A text refers to a name if and only if it has an interpolation, wherever that stands. -/
theorem references_ne_nil_iff : references s ≠ [] ↔ Interpolated s := by
  induction s with
  | nil =>
    refine iff_of_false (by simp [references]) ?_
    rintro ⟨before, name, written, after, heq, hrefers⟩
    obtain ⟨inner, rfl, -⟩ := hrefers.exists_cons
    simp at heq
  | cons c s ih =>
    cases hread : reference? (c :: s) with
    | some found =>
      obtain ⟨written, heq, hrefers⟩ := refers_of_reference? hread
      refine iff_of_true ?_ ⟨[], found.1, written, found.2, heq, hrefers⟩
      rw [heq, references_of_refers hrefers]
      exact List.cons_ne_nil _ _
    | none =>
      rw [references_cons hread, ih]
      constructor
      · rintro ⟨before, name, written, after, rfl, hrefers⟩
        exact ⟨c :: before, name, written, after, rfl, hrefers⟩
      · rintro ⟨before, name, written, after, heq, hrefers⟩
        cases before with
        | nil =>
          rw [List.nil_append] at heq
          rw [heq, reference?_of_refers hrefers] at hread
          cases hread
        | cons d before =>
          exact ⟨before, name, written, after, (List.cons.inj heq).2, hrefers⟩

/-! ## Rounds -/

/-- A round: the constants that the text refers to are put in, one after the other. -/
def expandOnce (constants : Constants) (s : List Char) : List Char :=
  (expandNames constants (references s) s).1

/-- The text takes so many rounds: it has interpolations before each of them, and none after the
last one. -/
def SettlesIn (constants : Constants) (n : Nat) (s : List Char) : Prop :=
  ¬ Interpolated ((expandOnce constants)^[n] s) ∧
    ∀ i < n, Interpolated ((expandOnce constants)^[i] s)

/-- A settled text stays as it is. -/
theorem iterate_expandOnce_of_settled (h : ¬ Interpolated s) (n : Nat) :
    (expandOnce constants)^[n] s = s := by
  refine Function.iterate_fixed ?_ n
  rw [expandOnce, not_not.mp (references_ne_nil_iff.not.mpr h)]
  rfl

/-- What is still interpolated after some rounds was so before each of them. -/
theorem interpolated_of_le {i : Nat} (hle : i ≤ n)
    (h : Interpolated ((expandOnce constants)^[n] s)) :
    Interpolated ((expandOnce constants)^[i] s) := by
  by_contra hsettled
  obtain ⟨k, rfl⟩ := Nat.exists_eq_add_of_le' hle
  rw [Function.iterate_add_apply, iterate_expandOnce_of_settled hsettled] at h
  exact hsettled h

/-- The result is what the rounds leave. -/
theorem expandRounds_eq_iterate (constants : Constants) (n : Nat) (s : List Char) :
    (expandRounds constants n s).1 = (expandOnce constants)^[n] s := by
  induction n generalizing s with
  | zero => rfl
  | succ n ih =>
    rw [expandRounds, Function.iterate_succ_apply]
    split
    case h_1 hnone =>
      have hsettled : ¬ Interpolated s := references_ne_nil_iff.not.mp (not_not.mpr hnone)
      have hround : expandOnce constants s = s := iterate_expandOnce_of_settled hsettled 1
      rw [hround, iterate_expandOnce_of_settled hsettled]
    case h_2 name names hnames =>
      rw [expandOnce, hnames]
      exact ih _

theorem unsettled_not_mem_expandNames (constants : Constants) (names : List (List Char))
    (s : List Char) (text : String) :
    Warning.unsettledPattern text ∉ (expandNames constants names s).2 := by
  induction names generalizing s with
  | nil => exact List.not_mem_nil
  | cons name names ih =>
    rw [expandNames]
    split
    · exact ih _
    · simp [ih]

/-- There is a warning if every round had something to do, and it shows the result. -/
theorem unsettled_mem_expandRounds_iff {text : String} :
    Warning.unsettledPattern text ∈ (expandRounds constants n s).2 ↔
      text = String.ofList ((expandOnce constants)^[n] s) ∧
        ∀ i < n, Interpolated ((expandOnce constants)^[i] s) := by
  induction n generalizing s with
  | zero => simp [expandRounds]
  | succ n ih =>
    rw [expandRounds]
    split
    case h_1 hnone =>
      have hsettled : ¬ Interpolated s := references_ne_nil_iff.not.mp (not_not.mpr hnone)
      exact iff_of_false List.not_mem_nil fun h => hsettled (h.2 0 (Nat.succ_pos n))
    case h_2 name names hnames =>
      have hstart : Interpolated s := references_ne_nil_iff.mp (by simp [hnames])
      have hround : (expandNames constants (name :: names) s).1 = expandOnce constants s := by
        rw [expandOnce, hnames]
      simp only [List.mem_append, unsettled_not_mem_expandNames, false_or, hround, ih,
        ← Function.iterate_succ_apply]
      refine and_congr_right fun _ => ⟨fun h i hi => ?_, fun h i hi => h _ (Nat.succ_lt_succ hi)⟩
      cases i with
      | zero => exact hstart
      | succ i => exact h i (Nat.lt_of_succ_lt_succ hi)

/-! ## The warning -/

/-- The result is still interpolated, or it took some number of rounds to settle. -/
theorem exists_settlesIn (h : ¬ Interpolated ((expandOnce constants)^[n] s)) :
    ∃ k ≤ n, SettlesIn constants k s := by
  classical
  have hsettles : ∃ k, ¬ Interpolated ((expandOnce constants)^[k] s) := ⟨n, h⟩
  refine ⟨Nat.find hsettles, Nat.find_min' hsettles h, Nat.find_spec hsettles, fun i hi => ?_⟩
  exact not_not.mp (Nat.find_min hsettles hi)

/-- Each of so many rounds has something to do, or the text settles in fewer. -/
theorem forall_interpolated_iff_not_settlesIn :
    (∀ i < n, Interpolated ((expandOnce constants)^[i] s)) ↔
      ∀ i < n, ¬ SettlesIn constants i s := by
  refine ⟨fun h i hi hsettles => hsettles.1 (h i hi), fun h i hi => ?_⟩
  by_contra hsettled
  obtain ⟨k, hk, hsettles⟩ := exists_settlesIn hsettled
  exact h k (hk.trans_lt hi) hsettles

/-- A pattern that expands through less than `maxRounds` levels gives no warning. -/
theorem substituteConstants_silent {pattern : String} {depth : Nat} {t : List Char}
    (hpattern : SignsRefer pattern.toList) (hconstants : constants.SignsRefer)
    (hexpands : Expands constants (pieces pattern.toList) depth t) (hdepth : depth < maxRounds)
    (text : String) :
    Warning.unsettledPattern text ∉ (substituteConstants constants pattern).2 := by
  intro hwarned
  have hinterpolated := (unsettled_mem_expandRounds_iff.mp hwarned).2 depth hdepth
  have hrounds := expandRounds_eq hconstants ⟨hpattern, depth, hexpands⟩
    fun name hmem => hexpands.within le_rfl hmem
  rw [expandRounds_eq_iterate] at hrounds
  rw [hrounds.1] at hinterpolated
  exact references_ne_nil_iff.mpr hinterpolated hrounds.2

/-- **When a pattern is reported as not settled**: if it still is interpolated before the last
round.  The warning shows the result.  What is left over is always reported, and the report is true
unless the last round was the one that settled the pattern. -/
theorem substituteConstants_warns_iff (constants : Constants) (pattern : String) :
    let answer := substituteConstants constants pattern
    let warned := ∃ text, Warning.unsettledPattern text ∈ answer.2
    (∀ text, Warning.unsettledPattern text ∈ answer.2 → text = answer.1) ∧
      (warned ↔ ∀ n < maxRounds, ¬ SettlesIn constants n pattern.toList) ∧
      (Interpolated answer.1.toList → warned) ∧
      ((warned ↔ Interpolated answer.1.toList) ↔
        ¬ SettlesIn constants maxRounds pattern.toList) := by
  intro answer warned
  have hresult : answer.1 = String.ofList ((expandOnce constants)^[maxRounds] pattern.toList) :=
    congrArg String.ofList (expandRounds_eq_iterate constants maxRounds pattern.toList)
  have hwarned : warned ↔
      ∀ n < maxRounds, Interpolated ((expandOnce constants)^[n] pattern.toList) := by
    constructor
    · rintro ⟨text, htext⟩
      exact (unsettled_mem_expandRounds_iff.mp htext).2
    · exact fun h => ⟨_, unsettled_mem_expandRounds_iff.mpr ⟨rfl, h⟩⟩
  have hleft : Interpolated answer.1.toList → warned := by
    rw [hresult, String.toList_ofList, hwarned]
    exact fun h n hn => interpolated_of_le hn.le h
  refine ⟨fun text htext => ?_, hwarned.trans forall_interpolated_iff_not_settlesIn, hleft, ?_⟩
  · rw [hresult]
    exact (unsettled_mem_expandRounds_iff.mp htext).1
  · have hsettles : SettlesIn constants maxRounds pattern.toList ↔
        ¬ Interpolated answer.1.toList ∧ warned := by
      rw [SettlesIn, hresult, String.toList_ofList, hwarned]
    rw [hsettles]
    exact ⟨fun htrue hlast => hlast.1 (htrue.mp hlast.2),
      fun hlast => ⟨fun h => by_contra fun hnot => hlast ⟨hnot, h⟩, hleft⟩⟩

/-- Sixteen constants, each of which refers to the next one, up to the last. -/
def chain : Value :=
  .ofFields [("A", .text "#{B}"), ("B", .text "#{C}"), ("C", .text "#{D}"), ("D", .text "#{E}"),
    ("E", .text "#{F}"), ("F", .text "#{G}"), ("G", .text "#{H}"), ("H", .text "#{I}"),
    ("I", .text "#{J}"), ("J", .text "#{K}"), ("K", .text "#{L}"), ("L", .text "#{M}"),
    ("M", .text "#{N}"), ("N", .text "#{O}"), ("O", .text "#{P}"), ("P", .text "x")]

/-- The sixteenth round settles the pattern, and it is reported as not settled. -/
theorem settled_in_the_last_round :
    let answer := substituteConstants (.ofValue chain) "#{A}"
    (∃ text, Warning.unsettledPattern text ∈ answer.2) ∧ answer.1 = "x" ∧
      ¬ Interpolated answer.1.toList := by
  intro answer
  have hwarned : answer.2.any (fun | .unsettledPattern _ => true | _ => false) = true := by
    decide +kernel
  have hresult : answer.1 = "x" := by decide +kernel
  refine ⟨?_, hresult, ?_⟩
  · obtain ⟨warning, hmem, hwarning⟩ := List.any_eq_true.mp hwarned
    cases warning with
    | unsettledPattern text => exact ⟨text, hmem⟩
    | _ => cases hwarning
  · rw [hresult]
    exact references_ne_nil_iff.not.mp (by decide +kernel)

end StepTrace.Manifest
