/-!
# Ordered maps

A map that remembers the order in which its keys first came in.  A key that is already there keeps
its place and gets the new value; a key that was erased comes in at the end again.

The view of a map is its list of entries; every operation is described by what it does to the keys
and to `find?`.
-/

namespace StepTrace

/-- A map from keys to values in the order of first insertion. -/
structure OrderedMap (κ : Type) (α : Type) where
  entries : List (κ × α) := []
deriving Repr, Inhabited

namespace OrderedMap

variable {κ α : Type} [DecidableEq κ]

def empty : OrderedMap κ α := ⟨[]⟩

/-- The value of a key. -/
def find? (m : OrderedMap κ α) (key : κ) : Option α :=
  (m.entries.find? fun entry => entry.1 = key).map (·.2)

/-- The keys in order. -/
def keys (m : OrderedMap κ α) : List κ :=
  m.entries.map (·.1)

/-- The values in the order of their keys. -/
def values (m : OrderedMap κ α) : List α :=
  m.entries.map (·.2)

/-- The number of entries. -/
def size (m : OrderedMap κ α) : Nat :=
  m.entries.length

/-- Is the key there? -/
def contains (m : OrderedMap κ α) (key : κ) : Bool :=
  (m.find? key).isSome

/-- The map with a value put under a key. -/
def insert (m : OrderedMap κ α) (key : κ) (value : α) : OrderedMap κ α :=
  if m.contains key then
    ⟨m.entries.map fun entry => if entry.1 = key then (key, value) else entry⟩
  else ⟨m.entries ++ [(key, value)]⟩

/-- The map without a key. -/
def erase (m : OrderedMap κ α) (key : κ) : OrderedMap κ α :=
  ⟨m.entries.filter fun entry => entry.1 ≠ key⟩

/-! ## What insertion and erasure do to keys and values -/

theorem contains_iff {m : OrderedMap κ α} {key : κ} : m.contains key = true ↔ key ∈ m.keys := by
  simp only [contains, find?, keys, Option.isSome_map, List.find?_isSome, List.mem_map,
    decide_eq_true_eq]

theorem keys_insert_of_mem {m : OrderedMap κ α} {key : κ} (value : α) (h : key ∈ m.keys) :
    (m.insert key value).keys = m.keys := by
  simp only [insert, contains_iff.2 h, if_true, keys, List.map_map]
  apply List.map_congr_left
  intro entry _
  by_cases he : entry.1 = key <;> simp [he]

theorem keys_insert_of_not_mem {m : OrderedMap κ α} {key : κ} (value : α) (h : key ∉ m.keys) :
    (m.insert key value).keys = m.keys ++ [key] := by
  have hc : m.contains key = false := by
    cases hb : m.contains key
    · rfl
    · exact absurd (contains_iff.1 hb) h
  simp [insert, hc, keys]

theorem keys_erase (m : OrderedMap κ α) (key : κ) :
    (m.erase key).keys = m.keys.filter fun k => k ≠ key := by
  simp only [erase, keys, List.filter_map]
  rfl

theorem find?_insert_self (m : OrderedMap κ α) (key : κ) (value : α) :
    (m.insert key value).find? key = some value := by
  by_cases h : m.contains key
  · have hm := contains_iff.1 h
    simp only [insert, h, if_true, find?]
    simp only [keys, List.mem_map] at hm
    obtain ⟨entry, hentry, rfl⟩ := hm
    generalize m.entries = entries at hentry
    induction entries with
    | nil => cases hentry
    | cons head rest ih =>
      by_cases hh : head.1 = entry.1
      · simp [hh]
      · rcases List.mem_cons.1 hentry with rfl | hrest
        · exact absurd rfl hh
        · simpa [hh] using ih hrest
  · have hm : ∀ entry ∈ m.entries, entry.1 ≠ key := by
      intro entry hentry heq
      exact h (contains_iff.2 (List.mem_map.2 ⟨entry, hentry, heq⟩))
    rw [insert, if_neg h]
    simp only [find?, List.find?_append]
    rw [List.find?_eq_none.2 (by simpa using hm)]
    simp

theorem find?_insert_of_ne {m : OrderedMap κ α} {key other : κ} (value : α) (h : other ≠ key) :
    (m.insert key value).find? other = m.find? other := by
  by_cases hc : m.contains key
  · simp only [insert, hc, if_true, find?, List.find?_map]
    have : (fun entry : κ × α => decide (entry.1 = other)) ∘
        (fun entry => if entry.1 = key then (key, value) else entry) =
        fun entry => decide (entry.1 = other) := by
      funext entry
      by_cases he : entry.1 = key <;> simp [he]
    rw [this]
    cases hf : m.entries.find? fun entry => decide (entry.1 = other) with
    | none => rfl
    | some entry =>
      have heq : entry.1 = other := by simpa using List.find?_some hf
      have : entry.1 ≠ key := fun hk => h (heq ▸ hk)
      simp [this]
  · rw [insert, if_neg hc]
    simp [find?, List.find?_append, Ne.symm h]

theorem find?_erase_self (m : OrderedMap κ α) (key : κ) : (m.erase key).find? key = none := by
  simp only [erase, find?, Option.map_eq_none_iff, List.find?_eq_none]
  intro entry hentry
  simpa using (List.mem_filter.1 hentry).2

theorem find?_erase_of_ne {m : OrderedMap κ α} {key other : κ} (h : other ≠ key) :
    (m.erase key).find? other = m.find? other := by
  simp only [erase, find?, List.find?_filter]
  congr 2
  funext entry
  by_cases he : entry.1 = other
  · simp [he, h]
  · simp [he]

end OrderedMap

end StepTrace
