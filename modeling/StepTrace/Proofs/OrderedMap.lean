import StepTrace.OrderedMap
import Mathlib.Data.List.Nodup

/-!
# Ordered maps: entries, keys and restriction

A map without repeated keys is the same as its look-up function together with the order of its keys.
The part of a map whose keys satisfy a test is not changed by what happens at other keys, whatever
that is (`restrict_insert`, `restrict_erase`).
-/

namespace StepTrace.OrderedMap

variable {κ α : Type} [DecidableEq κ]

/-! ## Looking up -/

theorem find?_eq_none_iff {m : OrderedMap κ α} {key : κ} : m.find? key = none ↔ key ∉ m.keys := by
  rw [← contains_iff, contains]
  cases m.find? key <;> simp

theorem mem_keys_of_find?_eq_some {m : OrderedMap κ α} {key : κ} {value : α}
    (h : m.find? key = some value) : key ∈ m.keys := by
  rw [← contains_iff, contains, h]
  rfl

theorem mem_entries_of_find?_eq_some {m : OrderedMap κ α} {key : κ} {value : α}
    (h : m.find? key = some value) : (key, value) ∈ m.entries := by
  simp only [find?, Option.map_eq_some_iff] at h
  obtain ⟨entry, hfind, rfl⟩ := h
  have hkey : entry.1 = key := by simpa using List.find?_some hfind
  rw [← hkey]
  exact List.mem_of_find?_eq_some hfind

theorem find?_eq_some_of_mem {m : OrderedMap κ α} (hnodup : m.keys.Nodup) {key : κ} {value : α}
    (h : (key, value) ∈ m.entries) : m.find? key = some value := by
  obtain ⟨entries⟩ := m
  simp only [keys, find?] at hnodup h ⊢
  induction entries with
  | nil => cases h
  | cons head rest ih =>
      rw [List.map_cons, List.nodup_cons] at hnodup
      rcases List.mem_cons.mp h with rfl | hrest
      · simp
      · have hne : head.1 ≠ key := by
          intro heq
          exact hnodup.1 (heq ▸ List.mem_map_of_mem hrest)
        simpa [hne] using ih hnodup.2 hrest

/-- Without repeated keys, what is found under a key is what stands there. -/
theorem find?_eq_some_iff {m : OrderedMap κ α} (hnodup : m.keys.Nodup) {key : κ} {value : α} :
    m.find? key = some value ↔ (key, value) ∈ m.entries :=
  ⟨mem_entries_of_find?_eq_some, find?_eq_some_of_mem hnodup⟩

theorem mem_values_insert {m : OrderedMap κ α} {key : κ} {value other : α}
    (h : other ∈ (m.insert key value).values) : other = value ∨ other ∈ m.values := by
  simp only [values, List.mem_map] at h ⊢
  obtain ⟨entry, hentry, rfl⟩ := h
  unfold insert at hentry
  split at hentry
  · obtain ⟨old, hold, rfl⟩ := List.mem_map.mp hentry
    split
    · exact .inl rfl
    · exact .inr ⟨old, hold, rfl⟩
  · rcases List.mem_append.mp hentry with hold | hnew
    · exact .inr ⟨entry, hold, rfl⟩
    · rw [List.mem_singleton.mp hnew]
      exact .inl rfl

/-! ## Keys stay distinct -/

theorem mem_keys_insert {m : OrderedMap κ α} {key other : κ} (value : α) :
    other ∈ (m.insert key value).keys ↔ other ∈ m.keys ∨ other = key := by
  by_cases h : key ∈ m.keys
  · rw [keys_insert_of_mem value h]
    constructor
    · exact Or.inl
    · rintro (hother | rfl)
      exacts [hother, h]
  · rw [keys_insert_of_not_mem value h, List.mem_append, List.mem_singleton]

theorem nodup_keys_insert {m : OrderedMap κ α} (hnodup : m.keys.Nodup) (key : κ) (value : α) :
    (m.insert key value).keys.Nodup := by
  by_cases h : key ∈ m.keys
  · rwa [keys_insert_of_mem value h]
  · rw [keys_insert_of_not_mem value h]
    exact List.nodup_append.mpr ⟨hnodup, by simp, by
      rintro a ha b hb rfl
      exact h (List.mem_singleton.mp hb ▸ ha)⟩

theorem nodup_keys_erase {m : OrderedMap κ α} (hnodup : m.keys.Nodup) (key : κ) :
    (m.erase key).keys.Nodup := by
  rw [keys_erase]
  exact hnodup.filter _

theorem erase_of_not_mem {m : OrderedMap κ α} {key : κ} (h : key ∉ m.keys) : m.erase key = m := by
  simp only [erase]
  rw [List.filter_eq_self.mpr]
  intro entry hentry
  simp only [ne_eq, decide_not, Bool.not_eq_eq_eq_not, Bool.not_true, decide_eq_false_iff_not]
  rintro rfl
  exact h (List.mem_map_of_mem hentry)

theorem insert_of_not_mem {m : OrderedMap κ α} {key : κ} (value : α) (h : key ∉ m.keys) :
    (m.insert key value).entries = m.entries ++ [(key, value)] := by
  rw [insert, if_neg (by rwa [contains_iff])]

/-! ## The part of a map at some keys -/

/-- The entries whose keys satisfy a test, in order. -/
def restrict (m : OrderedMap κ α) (keep : κ → Bool) : List (κ × α) :=
  m.entries.filter fun entry => keep entry.1

theorem restrict_insert (m : OrderedMap κ α) {keep : κ → Bool} {key : κ} (value : α)
    (hkey : keep key = false) : (m.insert key value).restrict keep = m.restrict keep := by
  simp only [restrict, insert]
  split
  · induction m.entries with
    | nil => rfl
    | cons head rest ih =>
        by_cases hhead : head.1 = key
        · simp [hhead, hkey, ih]
        · simp [hhead, List.filter_cons, ih]
  · simp [List.filter_append, hkey]

theorem restrict_erase (m : OrderedMap κ α) {keep : κ → Bool} {key : κ}
    (hkey : keep key = false) : (m.erase key).restrict keep = m.restrict keep := by
  simp only [restrict, erase, List.filter_filter]
  apply List.filter_congr
  intro entry _
  by_cases hentry : entry.1 = key
  · simp [hentry, hkey]
  · simp [hentry]

/-- Erasing keys one after the other leaves what is at the other keys. -/
theorem entries_foldl_erase (keys : List κ) (m : OrderedMap κ α) :
    (keys.foldl erase m).entries = m.restrict fun key => key ∉ keys := by
  induction keys generalizing m with
  | nil => simp [restrict]
  | cons key keys ih =>
      rw [List.foldl_cons, ih]
      simp only [restrict, erase, List.filter_filter]
      apply List.filter_congr
      intro entry _
      by_cases hkey : entry.1 = key <;> simp [hkey]

omit [DecidableEq κ] in
theorem restrict_eq_self {m : OrderedMap κ α} {keep : κ → Bool} (h : ∀ key ∈ m.keys, keep key) :
    m.restrict keep = m.entries :=
  List.filter_eq_self.mpr fun _ hentry => h _ (List.mem_map_of_mem hentry)

omit [DecidableEq κ] in
theorem mem_restrict {m : OrderedMap κ α} {keep : κ → Bool} {key : κ} {value : α} :
    (key, value) ∈ m.restrict keep ↔ (key, value) ∈ m.entries ∧ keep key := by
  simp [restrict, List.mem_filter]

omit [DecidableEq κ] in
/-- A test that implies another can be made after it. -/
theorem restrict_of_entries {m m' : OrderedMap κ α} {keep keep' : κ → Bool}
    (hentries : m'.entries = m.restrict keep') (h : ∀ key, keep key → keep' key) :
    m'.restrict keep = m.restrict keep := by
  rw [restrict, hentries, restrict, restrict, List.filter_filter]
  apply List.filter_congr
  intro entry _
  cases hkeep : keep entry.1 with
  | false => rfl
  | true => rw [h _ hkeep, Bool.and_self]

omit [DecidableEq κ] in
theorem ext {m m' : OrderedMap κ α} (h : m.entries = m'.entries) : m = m' := by
  cases m
  cases m'
  exact congrArg mk h

theorem find?_restrict (m : OrderedMap κ α) (keep : κ → Bool) (key : κ) :
    (⟨m.restrict keep⟩ : OrderedMap κ α).find? key =
      if keep key then m.find? key else none := by
  simp only [find?, restrict, List.find?_filter]
  split
  · rename_i hkeep
    congr 2
    funext entry
    by_cases hentry : entry.1 = key
    · simp [hentry, hkeep]
    · simp [hentry]
  · rename_i hkeep
    rw [Option.map_eq_none_iff, List.find?_eq_none]
    intro entry _
    by_cases hentry : entry.1 = key
    · simp [hentry, hkeep]
    · simp [hentry]

/-- Of two values put under one key, the second counts. -/
theorem insert_insert (m : OrderedMap κ α) (key : κ) (value value' : α) :
    (m.insert key value).insert key value' = m.insert key value' := by
  have hthere : (m.insert key value).contains key = true :=
    contains_iff.mpr ((mem_keys_insert value).mpr (.inr rfl))
  apply ext
  rw [insert, if_pos hthere]
  by_cases hkey : m.contains key = true
  · simp only [insert, if_pos hkey, List.map_map]
    apply List.map_congr_left
    intro entry _
    by_cases hentry : entry.1 = key <;> simp [hentry]
  · have hother : ∀ entry ∈ m.entries, entry.1 ≠ key := by
      intro entry hentry heq
      exact hkey (contains_iff.mpr (heq ▸ List.mem_map_of_mem hentry))
    have hsame : (m.entries.map fun entry => if entry.1 = key then (key, value') else entry)
        = m.entries := by
      conv_rhs => rw [← List.map_id m.entries]
      apply List.map_congr_left
      intro entry hentry
      simp [hother entry hentry]
    simp only [insert, if_neg hkey, List.map_append, hsame]
    simp

end StepTrace.OrderedMap
