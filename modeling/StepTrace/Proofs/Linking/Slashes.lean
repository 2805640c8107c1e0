import StepTrace.Proofs.Linking.Search
import Mathlib.Data.List.TakeWhile
import Mathlib.Tactic.TFAE

/-!
# Blanks and slashes around patterns

A pattern may be written between two slashes and with blanks around it.  What is left without the
blanks (`Text.Trimmed`) means the text between its slashes, or itself if there are no two slashes
(`Linking.Means`), and this is what has to be searched for.

It is what is searched for, except if a single slash is all that is left: this slash is taken for
both slashes at once.  What remains then is the empty pattern, which occurs in every text, though a
slash does not (`Linking.compiled?_means_tfae`).  No definition behind one with such a pattern is
linked any more.
-/

namespace StepTrace

/-! ## Texts without blanks at their ends -/

namespace Text

variable {s t : List Char}

/-- What is left of a text without the blanks at its two ends. -/
structure Trimmed (s t : List Char) : Prop where
  parts : ∃ before after, s = before ++ (t ++ after) ∧
    (∀ c ∈ before, isBlank c = true) ∧ ∀ c ∈ after, isBlank c = true
  first : ∀ c, t.head? = some c → isBlank c = false
  last : ∀ c, t.getLast? = some c → isBlank c = false

theorem isBlank_of_head?_dropWhile {c : Char} (h : (s.dropWhile isBlank).head? = some c) :
    isBlank c = false := by
  have hhead := List.head?_dropWhile_not isBlank s
  rwa [h] at hhead

theorem trimmed_trim (s : List Char) : Trimmed s (trim s) := by
  obtain ⟨after, hafter, hblank⟩ : ∃ after, s.dropWhile isBlank = trim s ++ after ∧
      ∀ c ∈ after, isBlank c = true := by
    refine ⟨((s.dropWhile isBlank).reverse.takeWhile isBlank).reverse, ?_, fun c hc => ?_⟩
    · rw [trim, trimRight, ← List.reverse_append, List.takeWhile_append_dropWhile,
        List.reverse_reverse]
    · exact List.mem_takeWhile_imp (List.mem_reverse.mp hc)
  refine ⟨⟨s.takeWhile isBlank, after, ?_, fun c => List.mem_takeWhile_imp, hblank⟩, ?_, ?_⟩
  · rw [← hafter, List.takeWhile_append_dropWhile]
  · intro c hc
    refine isBlank_of_head?_dropWhile (s := s) ?_
    rw [hafter, List.head?_append, hc]
    rfl
  · intro c hc
    rw [trim, trimRight, List.getLast?_reverse] at hc
    exact isBlank_of_head?_dropWhile hc

theorem dropWhile_isBlank (h : ∀ c, s.head? = some c → isBlank c = false) :
    s.dropWhile isBlank = s := by
  cases s with
  | nil => rfl
  | cons c s => rw [List.dropWhile_cons_of_neg (by simp [h c rfl])]

/-- Nothing else is left without the blanks at the two ends. -/
theorem Trimmed.trim_eq (h : Trimmed s t) : trim s = t := by
  obtain ⟨before, after, rfl, hbefore, hafter⟩ := h.parts
  rw [trim, List.dropWhile_append_of_pos hbefore]
  cases t with
  | nil =>
      rw [List.nil_append, List.dropWhile_eq_nil_iff.mpr hafter]
      rfl
  | cons c t =>
      rw [dropWhile_isBlank (by simpa using h.first c rfl), trimRight, List.reverse_append,
        List.dropWhile_append_of_pos fun c hc => hafter c (List.mem_reverse.mp hc),
        dropWhile_isBlank fun d hd => h.last d (by rwa [List.head?_reverse] at hd),
        List.reverse_reverse]

end Text

namespace Regex

/-- The pattern occurs in every text. -/
def OccursEverywhere (regex : Regex) : Prop :=
  ∀ text, regex.occursIn text = true

theorem source_of_read {source : String} {regex : Regex} (h : read source = .ok regex) :
    regex.source = source := by
  unfold read at h
  cases hrun : Reader.pattern.run { rest := source.toList } with
  | error refusal => rw [hrun] at h; cases h
  | ok out => rw [hrun] at h; cases h; rfl

theorem exists_read_empty : ∃ regex, read "" = .ok regex ∧ regex.OccursEverywhere := by
  refine ⟨{ source := "", expr := .empty, groupCount := 0 }, by decide +kernel, fun text => ?_⟩
  rfl

/-- A slash does not occur in the empty text. -/
theorem not_occursEverywhere_slash {regex : Regex} (h : read "/" = .ok regex) :
    ¬ regex.OccursEverywhere := by
  have hempty : (read "/").toOption.map (·.occursIn "") = some false := by decide +kernel
  intro hall
  rw [h] at hempty
  simp [Except.toOption, hall ""] at hempty

end Regex

namespace Linking

open Text

variable {s t : List Char}

/-! ## Slashes -/

/-- A text between two slashes. -/
def slashed (t : List Char) : List Char :=
  '/' :: (t ++ ['/'])

theorem slashed_injective (h : slashed s = slashed t) : s = t :=
  List.append_cancel_right (List.cons.inj h).2

theorem slashed_ne_lone (t : List Char) : slashed t ≠ ['/'] := by
  simp [slashed]

/-- What begins and ends with a slash stands between two of them, or is a single one. -/
theorem slash_both_ends_iff : (['/'].isPrefixOf s && ['/'].isSuffixOf s) = true ↔
    s = ['/'] ∨ ∃ t, s = slashed t := by
  rw [Bool.and_eq_true, List.isPrefixOf_iff_prefix, List.isSuffixOf_iff_suffix]
  constructor
  · rintro ⟨⟨rest, rfl⟩, before, hbefore⟩
    rcases rest.eq_nil_or_concat' with rfl | ⟨t, c, rfl⟩
    · exact .inl rfl
    · obtain rfl : '/' = c := by
        rw [← List.append_assoc] at hbefore
        exact (List.cons.inj (List.append_inj_right' hbefore rfl)).1
      exact .inr ⟨t, rfl⟩
  · rintro (rfl | ⟨t, rfl⟩)
    · exact ⟨List.prefix_rfl, List.suffix_rfl⟩
    · exact ⟨⟨t ++ ['/'], rfl⟩, '/' :: t, rfl⟩

/-- What a text without blanks at its ends means as a pattern: what stands between its two slashes,
or else the whole of it. -/
inductive Means (s : List Char) : List Char → Prop
  | between {t : List Char} (h : s = slashed t) : Means s t
  | whole (h : ∀ t, s ≠ slashed t) : Means s s

/-- There is always one such text, and only one. -/
theorem existsUnique_means (s : List Char) : ∃! t, Means s t := by
  by_cases h : ∃ t, s = slashed t
  · obtain ⟨t, rfl⟩ := h
    refine ⟨t, .between rfl, fun t' ht' => ?_⟩
    cases ht' with
    | between h => exact (slashed_injective h).symm
    | whole h => exact absurd rfl (h t)
  · refine ⟨s, .whole fun t ht => h ⟨t, ht⟩, fun t' ht' => ?_⟩
    cases ht' with
    | between h' => exact absurd ⟨t', h'⟩ h
    | whole => rfl

/-! ## What is searched for -/

theorem cleanPattern_lone (h : Trimmed s ['/']) : cleanPattern s = [] := by
  rw [cleanPattern, h.trim_eq]
  rfl

theorem cleanPattern_of_means {p : List Char} (hs : Trimmed p s) (hlone : s ≠ ['/'])
    (h : Means s t) : cleanPattern p = t := by
  rw [cleanPattern, hs.trim_eq]
  cases h with
  | between h =>
      rw [if_pos (slash_both_ends_iff.mpr (.inr ⟨t, h⟩)), h]
      simp [slashed]
  | whole h =>
      rw [if_neg fun hboth => ?_]
      rcases slash_both_ends_iff.mp hboth with hone | ⟨t, ht⟩
      · exact hlone hone
      · exact h t ht

theorem compiled?_text (p : String) :
    compiled? (.text p) = (Regex.read (String.ofList (cleanPattern p.toList))).toOption := by
  unfold compiled? readPattern
  dsimp only
  cases Regex.read (String.ofList (cleanPattern p.toList)) with
  | ok regex => rfl
  | error refusal => cases refusal <;> rfl

theorem compiled?_eq_some_iff {p : String} {regex : Regex} : compiled? (.text p) = some regex ↔
    Regex.read (String.ofList (cleanPattern p.toList)) = .ok regex := by
  rw [compiled?_text]
  cases Regex.read (String.ofList (cleanPattern p.toList)) <;> simp [Except.toOption]

/-- A text between slashes, with blanks around them, is searched for as it is. -/
theorem compiled?_slashed {before after : List Char} (t : List Char)
    (hbefore : ∀ c ∈ before, isBlank c = true) (hafter : ∀ c ∈ after, isBlank c = true) :
    compiled? (.text (String.ofList (before ++ (slashed t ++ after)))) =
      (Regex.read (String.ofList t)).toOption := by
  have hslash : isBlank '/' = false := by decide
  have hs : Trimmed (before ++ (slashed t ++ after)) (slashed t) := by
    refine ⟨⟨before, after, rfl, hbefore, hafter⟩, fun c hc => ?_, fun c hc => ?_⟩
    · rw [← Option.some.inj (show some '/' = some c from hc)]
      exact hslash
    · rw [slashed, ← List.cons_append, List.getLast?_concat] at hc
      rw [← Option.some.inj hc]
      exact hslash
  rw [compiled?_text, String.toList_ofList,
    cleanPattern_of_means hs (slashed_ne_lone t) (.between rfl)]

/-- Behind a definition whose pattern occurs everywhere none is ever linked. -/
theorem firstMatch?_of_occursEverywhere {store : Store} {earlier later : List (Ref Definition)}
    {d : Ref Definition} {regex : Regex} (hall : store.allDefinitions = earlier ++ d :: later)
    (h : compiled? (store.get d).pattern = some regex) (hregex : regex.OccursEverywhere)
    (text : String) : ∃ e ∈ earlier ++ [d], ∃ m, store.firstMatch? text = some (e, m) := by
  obtain ⟨m, hm⟩ := Option.isSome_iff_exists.mp (hregex text)
  have hhere : (compiled? (store.get d).pattern).bind (fun regex =>
      (regex.search? text).map fun m => (d, m)) = some (d, m) := by
    rw [h, Option.bind_some, hm]
    rfl
  have hsplit : store.allDefinitions = (earlier ++ [d]) ++ later := by simpa using hall
  rw [Store.firstMatch?, hsplit, List.findSome?_append]
  cases hfound : (earlier ++ [d]).findSome? fun d =>
      (compiled? (store.get d).pattern).bind fun regex =>
        (regex.search? text).map fun m => (d, m) with
  | none => exact absurd (List.findSome?_eq_none_iff.mp hfound d (by simp)) (by simp [hhere])
  | some found =>
      obtain ⟨e, he, hfound⟩ := List.exists_of_findSome?_eq_some hfound
      simp only [Option.bind_eq_some_iff, Option.map_eq_some_iff] at hfound
      obtain ⟨_, -, m', -, rfl⟩ := hfound
      exact ⟨e, he, m', rfl⟩

/-- What becomes of a pattern that is a single slash between blanks. -/
structure Swallows (p : String) (regex : Regex) : Prop where
  source : regex.source = ""
  everywhere : regex.OccursEverywhere
  /-- A definition with the pattern gets every step that no earlier definition gets. -/
  first : ∀ {store : Store} {earlier later : List (Ref Definition)} {d : Ref Definition},
    store.allDefinitions = earlier ++ d :: later → (store.get d).pattern = .text p →
    ∀ text, ∃ e ∈ earlier ++ [d], ∃ m, store.firstMatch? text = some (e, m)

theorem swallows_of_lone {p : String} {regex : Regex} (hs : Trimmed p.toList ['/'])
    (h : compiled? (.text p) = some regex) : Swallows p regex := by
  have hread := compiled?_eq_some_iff.mp h
  rw [cleanPattern_lone hs] at hread
  have heverywhere : regex.OccursEverywhere := by
    obtain ⟨empty, hempty, heverywhere⟩ := Regex.exists_read_empty
    obtain rfl : empty = regex := Except.ok.inj (hempty.symm.trans hread)
    exact heverywhere
  refine ⟨Regex.source_of_read hread, heverywhere, fun hall hpattern text => ?_⟩
  exact firstMatch?_of_occursEverywhere hall (by rw [hpattern, h]) heverywhere text

/-- **What a pattern is searched for.**  The text that a pattern means is what is searched for, it
is the text of the pattern that was read, and the pattern occurs everywhere only if what it means
does, each if and only if the pattern is not a single slash between blanks.  What is written between
slashes and blanks is searched for whatever it is. -/
theorem compiled?_means_tfae {p : String} {s : List Char} {regex : Regex}
    (hs : Trimmed p.toList s) (h : compiled? (.text p) = some regex) :
    List.TFAE [
      s ≠ ['/'],
      ∀ t, Means s t → Regex.read (String.ofList t) = .ok regex,
      ∀ t, Means s t → regex.source = String.ofList t,
      regex.OccursEverywhere → ∃ t meant, Means s t ∧ Regex.read (String.ofList t) = .ok meant ∧
        meant.OccursEverywhere] ∧
    (s = ['/'] → Swallows p regex) ∧
    ∀ before t after, (∀ c ∈ before, isBlank c = true) → (∀ c ∈ after, isBlank c = true) →
      compiled? (.text (String.ofList (before ++ (slashed t ++ after)))) =
        (Regex.read (String.ofList t)).toOption := by
  have hlone : s = ['/'] → Swallows p regex := by
    rintro rfl
    exact swallows_of_lone hs h
  obtain ⟨meant, hmeant, -⟩ := existsUnique_means s
  have hslash : Means ['/'] ['/'] := .whole fun t => (slashed_ne_lone t).symm
  refine ⟨?_, hlone, fun before t after => compiled?_slashed t⟩
  tfae_have 1 → 2 := by
    intro hne t ht
    rw [← cleanPattern_of_means hs hne ht]
    exact compiled?_eq_some_iff.mp h
  tfae_have 2 → 3 := fun hread t ht => Regex.source_of_read (hread t ht)
  tfae_have 3 → 1 := by
    rintro hsource rfl
    have hempty := (hlone rfl).source
    rw [hsource _ hslash] at hempty
    exact absurd hempty (by decide)
  tfae_have 2 → 4 := fun hread heverywhere => ⟨meant, regex, hmeant, hread _ hmeant, heverywhere⟩
  -- The single slash is compiled to what occurs everywhere; what it means does not.
  tfae_have 4 → 1 := by
    rintro hmeans rfl
    obtain ⟨t, meant, ht, hread, heverywhere⟩ := hmeans (hlone rfl).everywhere
    obtain rfl : t = ['/'] := (existsUnique_means ['/']).unique ht hslash
    exact Regex.not_occursEverywhere_slash hread heverywhere
  tfae_finish

/-- A pattern between slashes and blanks. -/
theorem compiled?_means_tfae_user : ∃ regex,
    Trimmed "  /^a user$/\n".toList "/^a user$/".toList ∧
      compiled? (.text "  /^a user$/\n") = some regex ∧ regex.source = "^a user$" := by
  have hs : Trimmed "  /^a user$/\n".toList "/^a user$/".toList := by
    have htrim : trim "  /^a user$/\n".toList = "/^a user$/".toList := by decide +kernel
    exact htrim ▸ trimmed_trim _
  obtain ⟨regex, h⟩ : ∃ regex, compiled? (.text "  /^a user$/\n") = some regex :=
    Option.isSome_iff_exists.mp (by decide +kernel)
  refine ⟨regex, hs, h, ?_⟩
  exact ((compiled?_means_tfae hs h).1.out 0 2 rfl rfl).mp (by decide) "^a user$".toList
    (.between rfl)

/-- **A single slash is searched for as the empty text**, which occurs everywhere; it means a
slash, which does not. -/
theorem lone_slash_occursEverywhere : ∃ regex,
    Trimmed "/".toList ['/'] ∧ compiled? (.text "/") = some regex ∧ regex.source = "" ∧
      regex.OccursEverywhere ∧ ∀ t meant, Means ['/'] t → Regex.read (String.ofList t) = .ok meant →
        t = ['/'] ∧ ¬ meant.OccursEverywhere := by
  have hs : Trimmed "/".toList ['/'] := trimmed_trim ['/']
  obtain ⟨regex, h⟩ : ∃ regex, compiled? (.text "/") = some regex :=
    Option.isSome_iff_exists.mp (by decide +kernel)
  obtain ⟨hsource, heverywhere, -⟩ := swallows_of_lone hs h
  refine ⟨regex, hs, h, hsource, heverywhere, fun t meant ht hread => ?_⟩
  cases ht with
  | between ht => exact absurd ht.symm (slashed_ne_lone t)
  | whole => exact ⟨rfl, Regex.not_occursEverywhere_slash hread⟩

end Linking

end StepTrace
