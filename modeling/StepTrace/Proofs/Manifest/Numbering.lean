import StepTrace.Manifest.Records
import StepTrace.Proofs.Catalog
import StepTrace.Proofs.Identifier

/-!
# Identifiers of manifest records

A record of a manifest is registered under the identifier that it gives, and otherwise under one with
the number of records of its kind so far, plus one.  The number is taken from the catalog, and a
record that takes the place of another one leaves it as it is; so which numbers are given out depends
on what has been replaced.

As long as nothing is replaced the number is the position of the record among those of its kind.
Therefore nothing is replaced if and only if those *nominal* identifiers are different
(`Filed.nodup_iff`), and they are if the given ones are and none of these is one of the numbered ones
(`nodup_nominalIds_iff`).
-/

namespace StepTrace

/-! ## Registering one record after the other -/

namespace Catalog

/-- The catalog with records registered one after the other. -/
def insertAll (c : Catalog) (filed : List (String × Entry)) : Catalog :=
  filed.foldl (fun c p => c.insert p.1 p.2) c

theorem insertAll_append (c : Catalog) (filed later : List (String × Entry)) :
    c.insertAll (filed ++ later) = (c.insertAll filed).insertAll later :=
  List.foldl_append

theorem Consistent.insertAll {c : Catalog} (hc : c.Consistent) (filed : List (String × Entry)) :
    (c.insertAll filed).Consistent := by
  induction filed generalizing c with
  | nil => exact hc
  | cons p filed ih => exact ih (hc.insert p.1 p.2)

/-- What is registered in the end was registered before, or has come in under this identifier. -/
theorem find?_insertAll {c : Catalog} {filed : List (String × Entry)} {id : String} {e : Entry}
    (h : (c.insertAll filed).find? id = some e) : c.find? id = some e ∨ (id, e) ∈ filed := by
  induction filed generalizing c with
  | nil => exact Or.inl h
  | cons p filed ih =>
      rcases ih h with hfirst | hmem
      · rw [find?_insert] at hfirst
        split at hfirst
        · rename_i hid
          cases hfirst
          exact Or.inr (hid ▸ List.mem_cons_self ..)
        · exact Or.inl hfirst
      · exact Or.inr (List.mem_cons_of_mem _ hmem)

theorem count_eq_length (c : Catalog) (kind : Kind) : c.count kind = (c.ofKind kind).length := by
  rw [count, ofKind, OrderedMap.size, OrderedMap.values, List.length_map]

section

variable {c : Catalog} {id : String}

theorem ids_insert_new (e : Entry) (h : id ∉ c.ids) : (c.insert id e).ids = c.ids ++ [id] := by
  rw [ids, entries_insert, OrderedMap.keys_insert_of_not_mem e h, ids]

/-- A new identifier comes last in the order of its kind, and in no other. -/
theorem Consistent.ofKind_insert_new (hc : c.Consistent) (e : Entry) (h : id ∉ c.ids)
    (kind : Kind) :
    (c.insert id e).ofKind kind = c.ofKind kind ++ [e].filter (·.kind = kind) := by
  have hnew : ∀ kind, id ∉ (c.index kind).keys := by
    intro kind hmem
    rw [← OrderedMap.contains_iff, OrderedMap.contains, Option.isSome_iff_exists] at hmem
    obtain ⟨old, hold⟩ := hmem
    exact h (mem_ids_iff.mpr ⟨old, (hc.index_find?.mp hold).1⟩)
  by_cases hkind : e.kind = kind
  · subst hkind
    rw [ofKind, index_insert_self, OrderedMap.values, OrderedMap.insert_of_not_mem e (hnew _)]
    simp [ofKind, OrderedMap.values]
  · rw [ofKind, hc.index_insert_of_ne id (Ne.symm hkind), OrderedMap.erase_of_not_mem (hnew _)]
    simp [ofKind, hkind]

theorem Consistent.count_insert_new (hc : c.Consistent) (e : Entry) (h : id ∉ c.ids)
    (kind : Kind) :
    (c.insert id e).count kind = if kind = e.kind then c.count kind + 1 else c.count kind := by
  rw [count_eq_length, hc.ofKind_insert_new e h, List.length_append, ← count_eq_length]
  by_cases hkind : kind = e.kind
  · simp [hkind]
  · rw [if_neg hkind, List.filter_singleton]
    simp [Ne.symm hkind]

end

/-- If all identifiers are new, the records are what comes last in the orders of their kinds. -/
theorem Consistent.ofKind_insertAll {c : Catalog} (hc : c.Consistent)
    {filed : List (String × Entry)} (hnew : (c.ids ++ filed.map (·.1)).Nodup) (kind : Kind) :
    (c.insertAll filed).ofKind kind = c.ofKind kind ++ (filed.map (·.2)).filter (·.kind = kind) := by
  induction filed generalizing c with
  | nil => exact (List.append_nil _).symm
  | cons p filed ih =>
      have hfirst : p.1 ∉ c.ids := fun hmem =>
        (List.nodup_append'.mp hnew).2.2 hmem (List.mem_cons_self ..)
      have hrest : ((c.insert p.1 p.2).ids ++ filed.map (·.1)).Nodup := by
        rw [ids_insert_new p.2 hfirst, List.append_assoc]
        exact hnew
      refine (ih (hc.insert p.1 p.2) hrest).trans ?_
      rw [hc.ofKind_insert_new p.2 hfirst, List.append_assoc, ← List.filter_append]
      rfl

/-- If all records are still registered, each under one identifier, no identifier has come twice. -/
theorem nodup_of_registered {c : Catalog} {filed : List (String × Entry)} (hempty : c.ids = [])
    (hentries : (filed.map (·.2)).Nodup)
    (h : ∀ p ∈ filed, ∃ id, (c.insertAll filed).find? id = some p.2) :
    (filed.map (·.1)).Nodup := by
  have hfind : ∀ p ∈ filed, (c.insertAll filed).find? p.1 = some p.2 := by
    intro p hp
    obtain ⟨id, hid⟩ := h p hp
    rcases find?_insertAll hid with hold | hmem
    · have hmem := mem_ids_iff.mpr ⟨p.2, hold⟩
      rw [hempty] at hmem
      cases hmem
    · have hsame : (id, p.2) = p := List.inj_on_of_nodup_map hentries hmem hp rfl
      rwa [← hsame]
  refine List.Nodup.map_on (fun p hp q hq heq => ?_) hentries.of_map
  have hsame := (hfind p hp).symm.trans ((congrArg _ heq).trans (hfind q hq))
  exact Prod.ext heq (Option.some.inj hsame)

end Catalog

/-! ## Given and numbered identifiers -/

namespace Manifest

/-- The identifier that a record gives, if it gives one. -/
def givenId? (entry : Value) : Option String :=
  let id := entryField entry "id" .null
  if id.isPresent then some id.display else none

theorem recordId_eq (entry : Value) (stem : String) (count : Nat) :
    recordId entry stem count = (givenId? entry).getD (stem ++ toString (count + 1)) := by
  unfold recordId givenId? Value.orElse
  dsimp only
  split <;> rfl

/-- The numbers of the kinds after one more record. -/
def countOne (counts : Kind → Nat) (kind : Kind) : Kind → Nat :=
  fun k => if k = kind then counts k + 1 else counts k

/-- The identifiers of records by their positions: `counts` says how many of each kind come
before. -/
def nominalIds (counts : Kind → Nat) : List (Kind × Value) → List String
  | [] => []
  | (kind, entry) :: records =>
    recordId entry kind.word (counts kind) :: nominalIds (countOne counts kind) records

/-- The identifiers that are given. -/
def givenIds (records : List (Kind × Value)) : List String :=
  records.filterMap fun record => givenId? record.2

/-- The numbers by position of the records that give no identifier, as identifiers. -/
def numberedIds (counts : Kind → Nat) : List (Kind × Value) → List String
  | [] => []
  | (kind, entry) :: records =>
    let later := numberedIds (countOne counts kind) records
    if (givenId? entry).isSome then later
    else (kind.word ++ toString (counts kind + 1)) :: later

theorem nominalIds_perm (counts : Kind → Nat) (records : List (Kind × Value)) :
    (nominalIds counts records).Perm (givenIds records ++ numberedIds counts records) := by
  induction records generalizing counts with
  | nil => exact .refl _
  | cons record records ih =>
      obtain ⟨kind, entry⟩ := record
      rw [nominalIds, recordId_eq, numberedIds, givenIds]
      cases hgiven : givenId? entry with
      | none =>
          rw [List.filterMap_cons_none (by exact hgiven)]
          exact ((ih _).cons _).trans List.perm_middle.symm
      | some id =>
          rw [List.filterMap_cons_some (by exact hgiven)]
          exact (ih _).cons id

/-- Words of kinds have no digits, so a numbered identifier tells its kind. -/
theorem word_number_injective {kind kind' : Kind} {m n : Nat}
    (h : kind.word ++ toString m = kind'.word ++ toString n) : kind = kind' ∧ m = n := by
  have hword : ∀ kind : Kind, ∀ c ∈ kind.word.toList, (!c.isDigit) = true := by
    intro kind
    refine List.all_eq_true.mp ?_
    cases kind <;> decide
  have hpart : ∀ (kind : Kind) (n : Nat),
      (kind.word ++ toString n).toList.takeWhile (fun c => !c.isDigit) = kind.word.toList := by
    intro kind n
    rw [String.toList_append, List.takeWhile_append_of_pos (hword kind)]
    have hdigits : (toString n).toList.takeWhile (fun c => !c.isDigit) = [] := by
      cases hn : (toString n).toList with
      | nil => rfl
      | cons c rest =>
          have hc : c.isDigit = true := isDigit_of_mem_toString (hn ▸ List.mem_cons_self ..)
          rw [List.takeWhile_cons, hc]
          rfl
    rw [hdigits, List.append_nil]
  have hsame : kind.word = kind'.word := by
    apply String.toList_injective
    rw [← hpart kind m, h, hpart kind' n]
  have hkind : kind = kind' := by
    have hback := congrArg Kind.ofWord? hsame
    rw [Kind.ofWord?_word, Kind.ofWord?_word] at hback
    exact Option.some.inj hback
  subst hkind
  exact ⟨rfl, numbered_injective h⟩

theorem of_mem_numberedIds {counts : Kind → Nat} {records : List (Kind × Value)} {id : String}
    (h : id ∈ numberedIds counts records) :
    ∃ kind n, counts kind ≤ n ∧ id = kind.word ++ toString (n + 1) := by
  induction records generalizing counts with
  | nil => cases h
  | cons record records ih =>
      obtain ⟨kind, entry⟩ := record
      have hlater : id ∈ numberedIds (countOne counts kind) records →
          ∃ kind n, counts kind ≤ n ∧ id = kind.word ++ toString (n + 1) := by
        intro hmem
        obtain ⟨kind', n, hn, rfl⟩ := ih hmem
        refine ⟨kind', n, Nat.le_trans ?_ hn, rfl⟩
        unfold countOne
        split
        · exact Nat.le_succ _
        · exact Nat.le_refl _
      rw [numberedIds] at h
      split at h
      · exact hlater h
      · rcases List.mem_cons.mp h with rfl | hmem
        · exact ⟨kind, counts kind, Nat.le_refl _, rfl⟩
        · exact hlater hmem

theorem nodup_numberedIds (counts : Kind → Nat) (records : List (Kind × Value)) :
    (numberedIds counts records).Nodup := by
  induction records generalizing counts with
  | nil => exact List.nodup_nil
  | cons record records ih =>
      obtain ⟨kind, entry⟩ := record
      rw [numberedIds]
      split
      · exact ih _
      · refine List.nodup_cons.mpr ⟨fun hmem => ?_, ih _⟩
        -- later records of the kind have greater numbers
        obtain ⟨kind', n, hn, heq⟩ := of_mem_numberedIds hmem
        obtain ⟨rfl, hsame⟩ := word_number_injective heq
        rw [countOne, if_pos rfl] at hn
        omega

/-- **Positions give different identifiers if and only if none that is given is a numbered one.** -/
theorem nodup_nominalIds_iff {counts : Kind → Nat} {records : List (Kind × Value)}
    (hgiven : (givenIds records).Nodup) : (nominalIds counts records).Nodup ↔
      (givenIds records).Disjoint (numberedIds counts records) := by
  rw [(nominalIds_perm counts records).nodup_iff, List.nodup_append']
  exact ⟨fun h => h.2.2, fun h => ⟨hgiven, nodup_numberedIds counts records, h⟩⟩

/-! ## The identifiers that are given out -/

/-- Records are registered one after the other, under the identifiers that they give or get. -/
inductive Filed : Catalog → List (Kind × Value) → List (String × Entry) → Prop
  | nil (c : Catalog) : Filed c [] []
  | cons {c : Catalog} {e : Entry} {entry : Value} {records : List (Kind × Value)}
      {filed : List (String × Entry)} (id : String)
      (hid : id = recordId entry e.kind.word (c.count e.kind))
      (hrest : Filed (c.insert id e) records filed) :
      Filed c ((e.kind, entry) :: records) ((id, e) :: filed)

namespace Filed

variable {c : Catalog} {records later : List (Kind × Value)} {filed filed' : List (String × Entry)}

theorem append (h : Filed c records filed) (h' : Filed (c.insertAll filed) later filed') :
    Filed c (records ++ later) (filed ++ filed') := by
  induction h with
  | nil c => exact h'
  | cons id hid _ ih => exact .cons id hid (ih h')

/-- As long as nothing is replaced the identifiers are the nominal ones. -/
theorem ids_eq (h : Filed c records filed) (hc : c.Consistent)
    (hnew : (c.ids ++ filed.map (·.1)).Nodup ∨ (c.ids ++ nominalIds c.count records).Nodup) :
    filed.map (·.1) = nominalIds c.count records := by
  induction h with
  | nil c => rfl
  | @cons c e entry records filed id hid _ ih =>
      rw [nominalIds, ← hid] at hnew ⊢
      have hfirst : id ∉ c.ids := by
        intro hmem
        rcases hnew with hnew | hnew
        all_goals exact (List.nodup_append'.mp hnew).2.2 hmem (List.mem_cons_self ..)
      have hcounts : (c.insert id e).count = countOne c.count e.kind :=
        funext fun kind => hc.count_insert_new e hfirst kind
      refine congrArg (List.cons id) ?_
      rw [← hcounts]
      refine ih (hc.insert id e) ?_
      rw [Catalog.ids_insert_new e hfirst, List.append_assoc, List.append_assoc, hcounts]
      exact hnew

/-- **Nothing is replaced if and only if the nominal identifiers are different.** -/
theorem nodup_iff (h : Filed c records filed) (hc : c.Consistent) (hempty : c.ids = []) :
    (filed.map (·.1)).Nodup ↔ (nominalIds c.count records).Nodup := by
  constructor
  · intro hnodup
    rw [← h.ids_eq hc (Or.inl (by rwa [hempty]))]
    exact hnodup
  · intro hnodup
    rw [h.ids_eq hc (Or.inr (by rwa [hempty]))]
    exact hnodup

end Filed

end Manifest

end StepTrace
