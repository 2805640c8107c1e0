import StepTrace.Proofs.Registry.Operations
import StepTrace.Proofs.Registry.Parts
import Mathlib.Algebra.GroupWithZero.Nat
import Mathlib.Data.List.Induction

/-!
# The two orders of a registry always agree

A registry keeps what is registered twice: in the order of all identifiers, and in one order for
each kind.  Both are changed separately by every registration and removal, and entries are deleted
from them without a look at whether they are there.  The deletions are safe because the two orders agree
(`insert?_eq`, `remove?_eq`), and they agree after every sequence of operations because events keep
that (`Consistent.follow`).

What is found under an identifier is read off the events: it is the record that was registered under
it last, unless the identifier has been taken out since (`find?_follow_iff`).

The main statement is `Session.orders_agree`.
-/

namespace StepTrace

/-! ## Deletions that have to find what they delete -/

namespace Catalog

/-- Takes an identifier out of the order of a kind, in which it has to be. -/
def unindex? (c : Catalog) (kind : Kind) (id : String) : Option Catalog := do
  let index ← c.byKind.find? kind
  if index.contains id then return { c with byKind := c.byKind.insert kind (index.erase id) }
  else none

/-- Registers a record, where the order of its former kind has to know the identifier. -/
def insert? (c : Catalog) (id : String) (entry : Entry) : Option Catalog := do
  let c ← match c.find? id with
    | some old => if old.kind = entry.kind then some c else c.unindex? old.kind id
    | none => some c
  return { entries := c.entries.insert id entry
           byKind := c.byKind.insert entry.kind ((c.index entry.kind).insert id entry) }

/-- Takes an identifier out, where the order of its kind has to know it. -/
def remove? (c : Catalog) (id : String) : Option Catalog :=
  match c.find? id with
  | some entry => do
    let c ← c.unindex? entry.kind id
    return { c with entries := c.entries.erase id }
  | none => some c

variable {c : Catalog}

/-- What is registered is in the order of its kind. -/
theorem Consistent.unindex?_eq (hc : c.Consistent) {id : String} {entry : Entry}
    (h : c.find? id = some entry) : c.unindex? entry.kind id = some (c.unindex entry.kind id) := by
  have hindexed : (c.index entry.kind).find? id = some entry := hc.index_find?.mpr ⟨h, rfl⟩
  unfold unindex? unindex
  cases hkind : c.byKind.find? entry.kind with
  | none =>
      simp only [index, hkind] at hindexed
      cases hindexed
  | some order =>
      have horder : c.index entry.kind = order := by simp [index, hkind]
      have hthere : order.contains id = true := by
        rw [← horder, OrderedMap.contains, hindexed]
        rfl
      simp [hthere, horder]

/-- Registering never fails to find what it deletes. -/
theorem Consistent.insert?_eq (hc : c.Consistent) (id : String) (entry : Entry) :
    c.insert? id entry = some (c.insert id entry) := by
  unfold insert? Catalog.insert
  cases hold : c.find? id with
  | none => rfl
  | some old =>
      by_cases hkind : old.kind = entry.kind
      · simp [hkind]
      · simp [hkind, hc.unindex?_eq hold]

/-- Taking out never fails to find what it deletes. -/
theorem Consistent.remove?_eq (hc : c.Consistent) (id : String) :
    c.remove? id = some (c.remove id) := by
  unfold remove? Catalog.remove
  cases hold : c.find? id with
  | none => rfl
  | some old =>
      simp only [hc.unindex?_eq hold]
      rfl

/-- Neither does taking out several identifiers, one after the other. -/
theorem Consistent.foldlM_remove? (hc : c.Consistent) (ids : List String) :
    ids.foldlM remove? c = some (ids.foldl Catalog.remove c) := by
  induction ids generalizing c with
  | nil => rfl
  | cons id ids ih =>
      rw [List.foldlM_cons, hc.remove?_eq]
      exact ih (hc.remove id)

/-! ## The order of all identifiers and the orders of kinds -/

/-- What is registered, in the order of all identifiers. -/
def registered (c : Catalog) : List Entry :=
  c.ids.filterMap c.find?

theorem mem_registered {e : Entry} : e ∈ c.registered ↔ ∃ id, c.find? id = some e := by
  rw [registered, List.mem_filterMap]
  constructor
  · rintro ⟨id, -, hid⟩
    exact ⟨id, hid⟩
  · rintro ⟨id, hid⟩
    exact ⟨id, mem_ids_iff.mpr ⟨e, hid⟩, hid⟩

theorem length_registered (c : Catalog) : c.registered.length = c.size := by
  have hall : ∀ id ∈ c.ids, (c.find? id).isSome := by
    intro id hid
    obtain ⟨e, he⟩ := mem_ids_iff.mp hid
    rw [he]
    rfl
  rw [registered, List.length_filterMap_eq_countP, List.countP_eq_length.mpr hall]
  exact List.length_map _

/-! ## What events do -/

theorem Consistent.follow (hc : c.Consistent) (event : Event) : (c.follow event).Consistent := by
  cases event with
  | put id e => exact hc.insert id e
  | drop id => exact hc.remove id
  | clear => exact consistent_empty

theorem Consistent.foldl_follow (hc : c.Consistent) (log : List Event) :
    (log.foldl Catalog.follow c).Consistent := by
  induction log generalizing c with
  | nil => exact hc
  | cons event log ih => exact ih (hc.follow event)

/-- An event decides what is found under the identifiers that it concerns. -/
theorem find?_follow (c : Catalog) (event : Event) (id : String) (e : Entry) :
    (c.follow event).find? id = some e ↔
      event = .put id e ∨ ¬ event.Concerns id ∧ c.find? id = some e := by
  cases event with
  | put id' e' =>
      rw [follow, find?_insert]
      by_cases hid : id = id'
      · subst hid
        simp [Event.Concerns]
      · simp [Event.Concerns, hid, Ne.symm hid]
  | drop id' =>
      rw [follow, find?_remove]
      by_cases hid : id = id'
      · simp [Event.Concerns, hid]
      · simp [Event.Concerns, hid, Ne.symm hid]
  | clear =>
      constructor
      · intro h
        cases h
      · rintro (h | ⟨hother, -⟩)
        · cases h
        · exact absurd trivial hother

end Catalog

/-- What was last registered, one event later. -/
theorem Event.last_concat {log : List Event} {event : Event} {id : String} {e : Entry} :
    Last (log ++ [event]) id e ↔ event = .put id e ∨ ¬ event.Concerns id ∧ Last log id e := by
  constructor
  · rintro ⟨before, after, hlog, hafter⟩
    rcases List.eq_nil_or_concat after with rfl | ⟨after, last, rfl⟩
    · obtain ⟨-, hlast⟩ := List.append_inj' hlog rfl
      exact .inl (List.singleton_inj.mp hlast)
    · have hlog' : log ++ [event] = (before ++ put id e :: after) ++ [last] := by simpa using hlog
      obtain ⟨hfront, hlast⟩ := List.append_inj' hlog' rfl
      obtain rfl := List.singleton_inj.mp hlast
      exact .inr ⟨hafter event (by simp), before, after, hfront,
        fun event' hevent' => hafter event' (by simp [hevent'])⟩
  · rintro (rfl | ⟨hother, before, after, rfl, hafter⟩)
    · exact ⟨log, [], rfl, by simp⟩
    · refine ⟨before, after ++ [event], by simp, ?_⟩
      intro event' hevent'
      rcases List.mem_append.mp hevent' with hold | hnew
      · exact hafter event' hold
      · rwa [List.mem_singleton.mp hnew]

/-- What is found is what was registered last and not taken out since. -/
theorem Catalog.find?_foldl_follow (log : List Event) (id : String) (e : Entry) :
    (log.foldl follow {}).find? id = some e ↔ Event.Last log id e := by
  induction log using List.reverseRecOn with
  | nil =>
      constructor
      · intro h
        cases h
      · rintro ⟨before, after, hlog, -⟩
        simp at hlog
  | append_singleton log event ih =>
      rw [List.foldl_append, List.foldl_cons, List.foldl_nil, find?_follow, ih, Event.last_concat]

/-! ## Records keep their identifiers -/

namespace Store

variable {s : Store}

theorem Labelled.with_catalog (hs : s.Labelled) {catalog : Catalog}
    (h : ∀ {id e}, catalog.find? id = some e →
      s.catalog.find? id = some e ∨ s.Has e ∧ s.idOf e = id) :
    Labelled { s with catalog } := by
  intro id e he
  have hlabel : s.Has e ∧ s.idOf e = id := by
    rcases h he with hold | hnew
    · exact ⟨(hs hold).has, (hs hold).idOf⟩
    · exact hnew
  refine ⟨(has_with_catalog s catalog e).mpr hlabel.1, ?_, he⟩
  rw [idOf_eq, content_with_catalog, ← idOf_eq]
  exact hlabel.2

theorem Labelled.register {α : Type} [Record α] [HeapRecord α] (hs : s.Labelled) (x : α) :
    (s.register x).1.Labelled := by
  intro id e he
  have hcatalog := he
  rw [catalog_register, Catalog.find?_insert] at he
  by_cases hid : id = Record.id x
  · subst hid
    rw [if_pos rfl] at he
    cases he
    refine ⟨has_register_self s x, ?_, hcatalog⟩
    rw [idOf_entry, get_register_self]
  · rw [if_neg hid] at he
    have hplaced := hs he
    refine ⟨(has_register_iff s x e).mpr (.inl hplaced.has), ?_, hcatalog⟩
    rw [idOf_eq, content_register_of_has x hplaced.has, ← idOf_eq]
    exact hplaced.idOf

/-- The two orders of a registry agree, and its deletions find what they delete. -/
structure OrdersAgree (s : Store) : Prop where
  /-- Under all identifiers stand the same records as in the orders of the kinds together. -/
  same : s.catalog.registered.Perm (Kind.all.flatMap s.catalog.ofKind)
  nodup : s.catalog.registered.Nodup
  mem_ofKind : ∀ kind e, e ∈ s.catalog.ofKind kind ↔ e ∈ s.catalog.registered ∧ e.kind = kind
  own_id : ∀ id e, s.catalog.find? id = some e → s.Has e ∧ s.idOf e = id
  count : ∀ kind, s.catalog.count kind = (s.catalog.ofKind kind).length
  size : s.catalog.size = (Kind.all.map s.catalog.count).sum
  insert? : ∀ id e, s.catalog.insert? id e = some (s.catalog.insert id e)
  remove? : ∀ id, s.catalog.remove? id = some (s.catalog.remove id)

theorem mem_all (kind : Kind) : kind ∈ Kind.all := by
  cases kind <;> decide

theorem ordersAgree (hc : s.catalog.Consistent) (hlabelled : s.Labelled) : s.OrdersAgree := by
  have hmem (kind : Kind) (e : Entry) :
      e ∈ s.catalog.ofKind kind ↔ e ∈ s.catalog.registered ∧ e.kind = kind := by
    rw [hc.mem_ofKind, Catalog.mem_registered, exists_and_right]
  have hnodup : s.catalog.registered.Nodup := by
    refine hc.nodup.filterMap fun id id' e he he' => ?_
    rw [← (hlabelled he).idOf, ← (hlabelled he').idOf]
  have hkinds : (Kind.all.flatMap s.catalog.ofKind).Nodup := by
    rw [List.nodup_flatMap]
    refine ⟨fun kind _ => nodup_ofKind hc hlabelled kind, ?_⟩
    have hall : Kind.all.Nodup := by decide
    refine hall.imp fun {kind kind'} hne e he he' => hne ?_
    rw [← ((hmem kind e).mp he).2, ((hmem kind' e).mp he').2]
  have hsame : s.catalog.registered.Perm (Kind.all.flatMap s.catalog.ofKind) := by
    refine (List.perm_ext_iff_of_nodup hnodup hkinds).mpr fun e => ?_
    rw [List.mem_flatMap]
    constructor
    · exact fun he => ⟨e.kind, mem_all _, (hmem e.kind e).mpr ⟨he, rfl⟩⟩
    · rintro ⟨kind, -, he⟩
      exact ((hmem kind e).mp he).1
  have hcount (kind : Kind) : s.catalog.count kind = (s.catalog.ofKind kind).length :=
    (List.length_map _).symm
  refine ⟨hsame, hnodup, hmem, fun id e he => ⟨(hlabelled he).has, (hlabelled he).idOf⟩, hcount, ?_,
    hc.insert?_eq, hc.remove?_eq⟩
  have hcounts : Kind.all.map s.catalog.count =
      Kind.all.map fun kind => (s.catalog.ofKind kind).length :=
    List.map_congr_left fun kind _ => hcount kind
  rw [← Catalog.length_registered, hsame.length_eq, List.length_flatMap, hcounts]

end Store

/-! ## Sessions -/

namespace Session

open Store

variable {session : Session}

/-- An operation keeps all records under their own identifiers. -/
theorem labelled_perform (hc : session.store.catalog.Consistent) (hs : session.store.Labelled)
    (operation : Operation) : (session.perform operation).2.store.Labelled := by
  cases operation with
  | create x =>
      intro id e he
      have hplaced := hs (catalog_create session.store x ▸ he)
      exact ⟨has_create x hplaced.has, (idOf_create x hplaced.has).trans hplaced.idOf, he⟩
  | insert candidate =>
      simp only [perform, carry, insert_run]
      cases candidate with
      | other => exact hs
      | record e =>
          by_cases he : session.store.Has e
          · simp only [if_pos he]
            refine hs.with_catalog fun {id e'} he' => ?_
            rw [Catalog.find?_insert] at he'
            split at he'
            · rename_i hid
              cases he'
              exact .inr ⟨he, hid.symm⟩
            · exact .inl he'
          · simp only [if_neg he]
            exact hs
  | remove id =>
      refine hs.with_catalog fun {id' e} he => .inl ?_
      rw [Catalog.find?_remove] at he
      split at he
      · cases he
      · exact he
  | clear =>
      refine hs.with_catalog fun he => ?_
      cases he
  | root =>
      simp only [perform, carry, root_run]
      cases session.store.catalog.find? rootNamespaceId with
      | some e => exact hs
      | none => exact hs.register _
  | checkpoint => exact hs
  | rollback number =>
      simp only [perform]
      cases session.checkpoints[number]? with
      | none => exact hs
      | some snap =>
          refine (snap.sameLabels_rollback session.store).labelled ?_
          rw [removeSince_eq]
          exact hs.with_catalog fun he => .inl (hc.find?_keepOnly.mp he).1

theorem catalog_after (session : Session) (operations : List Operation) :
    (session.after operations).store.catalog =
      (session.log operations).foldl Catalog.follow session.store.catalog := by
  induction operations generalizing session with
  | nil => rfl
  | cons operation operations ih =>
      rw [log, List.foldl_append, ← catalog_perform]
      exact ih _

theorem labelled_after (hc : session.store.catalog.Consistent) (hs : session.store.Labelled)
    (operations : List Operation) : (session.after operations).store.Labelled := by
  induction operations generalizing session with
  | nil => exact hs
  | cons operation operations ih =>
      refine ih ?_ (labelled_perform hc hs operation)
      rw [catalog_perform]
      exact hc.foldl_follow _

/-- A session with a registry that holds nothing yet. -/
def start : Session :=
  ⟨{}, []⟩

/-- **After any operations, refused or not, the two orders of the registry agree**, what is found
under an identifier is what was registered under it last and not taken out since, every record can
be registered, anything else is refused and changes nothing, and going back finds everything that it
deletes. -/
theorem orders_agree (operations : List Operation) :
    let session := start.after operations
    session.store.OrdersAgree ∧
    (∀ id e, session.store.catalog.find? id = some e ↔ Event.Last (start.log operations) id e) ∧
    (∀ e, session.store.Has e → (session.perform (.insert (.record e))).1 = .ok ()) ∧
    (∀ candidate, (∀ e, candidate = .record e → ¬ session.store.Has e) →
      session.perform (.insert candidate) = (.error .wrongType, session)) ∧
    ∀ snap ∈ session.checkpoints,
      (session.store.catalog.ids.filter (· ∉ snap.ids)).foldlM Catalog.remove?
        session.store.catalog = some (session.store.removeSince snap).catalog := by
  intro session
  have hc : session.store.catalog.Consistent := by
    rw [catalog_after]
    exact Catalog.consistent_empty.foldl_follow _
  have hempty : start.store.Labelled := nofun
  have hlabelled : session.store.Labelled :=
    labelled_after Catalog.consistent_empty hempty operations
  refine ⟨ordersAgree hc hlabelled, ?_, ?_, ?_, ?_⟩
  · intro id e
    rw [catalog_after]
    exact Catalog.find?_foldl_follow _ id e
  · intro e he
    simp only [perform, carry, insert_run, if_pos he]
  · intro candidate hcandidate
    simp only [perform, carry, insert_run]
    cases candidate with
    | other => rfl
    | record e => simp only [if_neg (hcandidate e rfl)]
  · intro snap _
    rw [removeSince_eq]
    exact hc.foldlM_remove? _

/-- A transform that takes the identifier of a step definition takes it out of its order. -/
example :
    let session := start.after [
      .create (.definition { id := "a", keyword := "Given", pattern := .text "x" }),
      .insert (.record (.definition ⟨0⟩)), .insert .other,
      .create (.transform { id := "a", keyword := "Transform", pattern := .text "y" }),
      .insert (.record (.transform ⟨0⟩))]
    session.store.catalog.ofKind .definition = [] ∧
      session.store.catalog.ofKind .transform = [.transform ⟨0⟩] := by
  decide

end Session

end StepTrace
