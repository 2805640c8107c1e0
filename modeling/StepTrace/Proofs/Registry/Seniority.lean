import StepTrace.Proofs.Registry.TwoOrders

/-!
# The order in which a registry is gone through

Identifiers are gone through in the order in which they came in, and a kind in the order in which
its identifiers came to be of that kind.  Both are orders by seniority: the one comes before the
other if there is a moment since which it has been there all along and at which the other was not
(`Event.CameBefore`).  Both have the same reason, which is that an event takes identifiers out of an
order or puts one at its end, and moves none (`Shifted`).

An identifier that is registered again keeps its seniority in the order of all identifiers, also
with a record of another kind, but in the order of that kind it has none yet.  So going through a
kind does not always mean going through its records in the order of all identifiers;
`Session.ofKind_follows_ids_iff` says when it does, and `Session.moved_to_the_end` is a case in
which it does not.
-/

namespace StepTrace

/-! ## Seniority -/

/-- The catalog after some events. -/
def Catalog.ofLog (log : List Event) : Catalog :=
  log.foldl Catalog.follow {}

/-- Since some moment the one has been there all along, and at that moment the other was not. -/
def Event.CameBefore (present : Catalog → String → Prop) (log : List Event)
    (id id' : String) : Prop :=
  ∃ before after, log = before ++ after ∧ ¬ present (.ofLog before) id' ∧
    ∀ since, since <+: after → present (.ofLog (before ++ since)) id

namespace Event

variable {present : Catalog → String → Prop} {log : List Event} {id id' : String}

/-- Of two identifiers only one can have come before the other. -/
theorem CameBefore.asymm (h : CameBefore present log id id') : ¬ CameBefore present log id' id := by
  rintro ⟨before', after', hlog', habsent', hpresent'⟩
  obtain ⟨before, after, hlog, habsent, hpresent⟩ := h
  have hfront : before <+: before' ∨ before' <+: before :=
    List.prefix_or_prefix_of_prefix ⟨after, hlog.symm⟩ ⟨after', hlog'.symm⟩
  rcases hfront with ⟨since, rfl⟩ | ⟨since, rfl⟩
  · refine habsent' (hpresent since ⟨after', ?_⟩)
    rw [hlog, List.append_assoc] at hlog'
    exact (List.append_cancel_left hlog').symm
  · refine habsent (hpresent' since ⟨after, ?_⟩)
    rw [hlog', List.append_assoc] at hlog
    exact (List.append_cancel_left hlog).symm

theorem CameBefore.congr {present' : Catalog → String → Prop}
    (hsame : ∀ log id, present (.ofLog log) id ↔ present' (.ofLog log) id)
    (h : CameBefore present log id id') : CameBefore present' log id id' := by
  obtain ⟨before, after, hlog, habsent, hpresent⟩ := h
  exact ⟨before, after, hlog, fun h => habsent ((hsame _ _).mpr h),
    fun since hsince => (hsame _ _).mp (hpresent since hsince)⟩

/-- What is still there keeps its seniority. -/
theorem CameBefore.concat (h : CameBefore present log id id') {event : Event}
    (hstays : present (.ofLog (log ++ [event])) id) :
    CameBefore present (log ++ [event]) id id' := by
  obtain ⟨before, after, rfl, habsent, hpresent⟩ := h
  refine ⟨before, after ++ [event], List.append_assoc .., habsent, fun since hsince => ?_⟩
  rcases List.prefix_concat_iff.mp hsince with rfl | hsince
  · rwa [← List.append_assoc]
  · exact hpresent since hsince

/-- What is there and stays comes before what was not there. -/
theorem cameBefore_new {event : Event} (hthere : present (.ofLog log) id)
    (hstays : present (.ofLog (log ++ [event])) id) (hnew : ¬ present (.ofLog log) id') :
    CameBefore present (log ++ [event]) id id' := by
  refine ⟨log, [event], rfl, hnew, fun since (hsince : since <+: [] ++ [event]) => ?_⟩
  rcases List.prefix_concat_iff.mp hsince with rfl | hsince
  · exact hstays
  · rwa [List.prefix_nil.mp hsince, List.append_nil]

end Event

/-! ## Orders that are changed at their end only -/

/-- Some are taken out, or one that was not there comes last. -/
def Shifted (order order' : List String) : Prop :=
  order'.Sublist order ∨ ∃ id, id ∉ order ∧ order' = order ++ [id]

namespace Catalog

variable {c : Catalog}

/-- **An order that every event shifts is an order by seniority.** -/
theorem pairwise_cameBefore {order : Catalog → List String} (hempty : order {} = [])
    (hshift : ∀ c event, c.Consistent → Shifted (order c) (order (c.follow event)))
    (log : List Event) :
    (order (ofLog log)).Pairwise (Event.CameBefore (fun c id => id ∈ order c) log) := by
  induction log using List.reverseRecOn with
  | nil =>
      change (order {}).Pairwise _
      rw [hempty]
      exact .nil
  | append_singleton log event ih =>
      have hnext : ofLog (log ++ [event]) = (ofLog log).follow event := by
        rw [ofLog, List.foldl_append]
        rfl
      have hkept {id id' : String} (hid : id ∈ order (ofLog (log ++ [event])))
          (h : Event.CameBefore (fun c id => id ∈ order c) log id id') :
          Event.CameBefore (fun c id => id ∈ order c) (log ++ [event]) id id' := h.concat hid
      rcases hshift _ event (consistent_empty.foldl_follow log) with hsub | ⟨id, hid, happend⟩
      · rw [← ofLog, ← hnext] at hsub
        exact (ih.sublist hsub).imp_of_mem fun ha _ h => hkept ha h
      · rw [← ofLog, ← hnext] at happend
        have hmem {id' : String} (h : id' ∈ order (ofLog log)) :
            id' ∈ order (ofLog (log ++ [event])) := by
          rw [happend]
          exact List.mem_append_left _ h
        rw [happend, List.pairwise_append]
        refine ⟨ih.imp_of_mem fun ha _ h => hkept (hmem ha) h, List.pairwise_singleton .., ?_⟩
        intro id' hid' new hnew
        rw [List.mem_singleton.mp hnew]
        exact Event.cameBefore_new hid' (hmem hid') hid

/-! ## The orders of a catalog -/

theorem shifted_keys_insert {κ : Type} (m : OrderedMap String κ) (id : String) (x : κ) :
    Shifted m.keys (m.insert id x).keys := by
  by_cases hid : id ∈ m.keys
  · exact .inl (by rw [OrderedMap.keys_insert_of_mem x hid])
  · exact .inr ⟨id, hid, OrderedMap.keys_insert_of_not_mem x hid⟩

theorem shifted_keys_erase {κ : Type} (m : OrderedMap String κ) (id : String) :
    Shifted m.keys (m.erase id).keys := by
  rw [OrderedMap.keys_erase]
  exact .inl List.filter_sublist

theorem shifted_ids (c : Catalog) (event : Event) : Shifted c.ids (c.follow event).ids := by
  cases event with
  | put id e =>
      rw [follow, ids, ids, entries_insert]
      exact shifted_keys_insert ..
  | drop id =>
      rw [follow, ids, ids, entries_remove]
      exact shifted_keys_erase ..
  | clear => exact .inl (List.nil_sublist _)

theorem shifted_index (kind : Kind) (hc : c.Consistent) (event : Event) :
    Shifted (c.index kind).keys ((c.follow event).index kind).keys := by
  cases event with
  | put id e =>
      rw [follow, index_insert]
      split
      · exact shifted_keys_insert ..
      · split
        · exact shifted_keys_erase ..
        · exact .inl (List.Sublist.refl _)
  | drop id =>
      rw [follow, hc.index_remove]
      exact shifted_keys_erase ..
  | clear => exact .inl (List.nil_sublist _)

/-- Is a record of the kind registered under the identifier? -/
def HasKind (kind : Kind) (c : Catalog) (id : String) : Prop :=
  (c.find? id).map Entry.kind = some kind

instance (kind : Kind) (c : Catalog) (id : String) : Decidable (c.HasKind kind id) :=
  inferInstanceAs (Decidable (_ = _))

/-- Is anything registered under the identifier? -/
def Registers (c : Catalog) (id : String) : Prop :=
  (c.find? id).isSome

theorem mem_ids_iff_registers {id : String} : id ∈ c.ids ↔ c.Registers id := by
  rw [Registers, Option.isSome_iff_exists, mem_ids_iff]

theorem Consistent.mem_index_iff (hc : c.Consistent) {kind : Kind} {id : String} :
    id ∈ (c.index kind).keys ↔ c.HasKind kind id := by
  rw [HasKind, Option.map_eq_some_iff, ← OrderedMap.contains_iff, OrderedMap.contains,
    Option.isSome_iff_exists]
  simp only [hc.index_find?]

theorem consistent_ofLog (log : List Event) : (ofLog log).Consistent :=
  consistent_empty.foldl_follow log

/-- **All identifiers stand in the order in which they came in.** -/
theorem pairwise_ids (log : List Event) :
    (ofLog log).ids.Pairwise (Event.CameBefore Registers log) := by
  have h := @pairwise_cameBefore ids rfl (fun c event _ => shifted_ids c event) log
  simpa only [mem_ids_iff_registers] using h

/-- **The identifiers of a kind stand in the order in which they came to be of that kind.** -/
theorem pairwise_index (kind : Kind) (log : List Event) :
    ((ofLog log).index kind).keys.Pairwise (Event.CameBefore (HasKind kind) log) := by
  have h := @pairwise_cameBefore (fun c => (c.index kind).keys) rfl
    (fun c event hc => shifted_index kind hc event) log
  exact h.imp fun hbefore => hbefore.congr fun log _ => (consistent_ofLog log).mem_index_iff

/-! ## When a kind follows the order of all identifiers -/

theorem Consistent.ofKind_eq (hc : c.Consistent) (kind : Kind) :
    c.ofKind kind = (c.index kind).keys.filterMap c.find? := by
  have hfind : ∀ entry ∈ (c.index kind).entries, c.find? entry.1 = some entry.2 := by
    intro entry hentry
    exact (hc.index_find?.mp (OrderedMap.find?_eq_some_of_mem (hc.nodup_index kind) hentry)).1
  rw [ofKind, OrderedMap.values, OrderedMap.keys, List.filterMap_map, ← List.filterMap_eq_map]
  exact List.filterMap_congr fun entry hentry => (hfind entry hentry).symm

theorem registered_filter (c : Catalog) (kind : Kind) : c.registered.filter (·.kind = kind) =
    (c.ids.filter (c.HasKind kind)).filterMap c.find? := by
  rw [registered, List.filter_filterMap, List.filterMap_filter]
  refine List.filterMap_congr fun id _ => ?_
  by_cases hkind : c.HasKind kind id
  · obtain ⟨e, he, hkind'⟩ := Option.map_eq_some_iff.mp hkind
    rw [if_pos (decide_eq_true hkind), he]
    simp [hkind']
  · rw [if_neg (by simpa using hkind), Option.filter_eq_none_iff]
    exact fun e he hkind' =>
      hkind (Option.map_eq_some_iff.mpr ⟨e, he, of_decide_eq_true hkind'⟩)

end Catalog

/-- The identifiers of registered records are those under which they are registered. -/
theorem Store.Labelled.map_idOf {s : Store} (hs : s.Labelled) {ids : List String}
    (hids : ∀ id ∈ ids, id ∈ s.catalog.ids) :
    (ids.filterMap s.catalog.find?).map s.idOf = ids := by
  induction ids with
  | nil => rfl
  | cons id ids ih =>
      obtain ⟨hid, hids⟩ := List.forall_mem_cons.mp hids
      obtain ⟨e, he⟩ := Catalog.mem_ids_iff.mp hid
      rw [List.filterMap_cons_some he, List.map_cons, ih hids, (hs he).idOf]

/-- Two lists of the same elements, each by a seniority of its own, are the same if and only if the
seniority of the one implies that of the other. -/
theorem eq_iff_of_pairwise {α : Type} {R S : α → α → Prop} {xs ys : List α} (hperm : xs.Perm ys)
    (hxs : xs.Pairwise R) (hys : ys.Pairwise S) (hR : ∀ a b, R a b → ¬ R b a)
    (hS : ∀ a b, S a b → ¬ S b a) : ys = xs ↔ ∀ a ∈ xs, ∀ b ∈ xs, R a b → S a b := by
  constructor
  · rintro rfl a ha b hb hab
    obtain ⟨i, hi, rfl⟩ := List.getElem_of_mem ha
    obtain ⟨j, hj, rfl⟩ := List.getElem_of_mem hb
    rcases Nat.lt_trichotomy i j with hlt | rfl | hgt
    · exact List.pairwise_iff_getElem.mp hys i j hi hj hlt
    · exact absurd hab (hR _ _ hab)
    · exact absurd hab (hR _ _ (List.pairwise_iff_getElem.mp hxs j i hj hi hgt))
  · intro himplies
    have hsorted : xs.Pairwise S := hxs.imp_of_mem fun ha hb h => himplies _ ha _ hb h
    exact (hperm.eq_of_pairwise (fun a b _ _ h h' => absurd h' (hS a b h)) hsorted hys).symm

/-- A kind is gone through in the order of all identifiers if and only if of any two identifiers of
the kind the one that came in first was the first to be of the kind. -/
theorem Store.ofKind_eq_iff {s : Store} {log : List Event} (hlog : s.catalog = .ofLog log)
    (hs : s.Labelled) (kind : Kind) :
    s.catalog.ofKind kind = s.catalog.registered.filter (·.kind = kind) ↔
      ∀ id id', s.catalog.HasKind kind id → s.catalog.HasKind kind id' →
        Event.CameBefore Catalog.Registers log id id' →
        Event.CameBefore (Catalog.HasKind kind) log id id' := by
  set c := s.catalog
  have hc : c.Consistent := hlog ▸ Catalog.consistent_ofLog log
  have hids : c.ids.Pairwise _ := hlog ▸ Catalog.pairwise_ids log
  have hindex : (c.index kind).keys.Pairwise _ := hlog ▸ Catalog.pairwise_index kind log
  have hmem {id : String} : id ∈ c.ids.filter (c.HasKind kind) ↔ c.HasKind kind id := by
    rw [List.mem_filter, decide_eq_true_eq, and_iff_right_iff_imp]
    intro hkind
    obtain ⟨e, he, -⟩ := Option.map_eq_some_iff.mp hkind
    exact Catalog.mem_ids_iff.mpr ⟨e, he⟩
  have hperm : (c.ids.filter (c.HasKind kind)).Perm (c.index kind).keys :=
    (List.perm_ext_iff_of_nodup (hc.nodup.filter _) (hc.nodup_index kind)).mpr fun id => by
      rw [hmem, hc.mem_index_iff]
  have hsame : c.ofKind kind = c.registered.filter (·.kind = kind) ↔
      (c.index kind).keys = c.ids.filter (c.HasKind kind) := by
    rw [hc.ofKind_eq, Catalog.registered_filter]
    constructor
    · intro h
      have hnames := congrArg (List.map s.idOf) h
      rwa [hs.map_idOf fun id hid => List.mem_of_mem_filter (hperm.mem_iff.mpr hid),
        hs.map_idOf fun id hid => List.mem_of_mem_filter hid] at hnames
    · exact fun h => by rw [h]
  rw [hsame, eq_iff_of_pairwise hperm (hids.filter _) hindex
    (fun _ _ => Event.CameBefore.asymm) fun _ _ => Event.CameBefore.asymm]
  simp only [hmem]
  exact ⟨fun h id id' hid hid' => h id hid id' hid', fun h id hid id' hid' => h id id' hid hid'⟩

/-- No event registers a record in place of one of another kind. -/
def Event.KeepKinds (log : List Event) : Prop :=
  ∀ before id e after, log = before ++ put id e :: after →
    ∀ old, (Catalog.ofLog before).find? id = some old → old.kind = e.kind

namespace Catalog

/-- What is there before and after an event is of the same kind if no kinds are changed. -/
theorem hasKind_of_concat {log before : List Event} {event : Event} {kind : Kind} {id : String}
    (hkeep : Event.KeepKinds log) (hbefore : before ++ [event] <+: log)
    (hthere : (ofLog before).Registers id) (h : (ofLog (before ++ [event])).HasKind kind id) :
    (ofLog before).HasKind kind id := by
  obtain ⟨after, hlog⟩ := hbefore
  rw [List.append_assoc] at hlog
  obtain ⟨old, hold⟩ := Option.isSome_iff_exists.mp hthere
  obtain ⟨e, he, hkind⟩ := Option.map_eq_some_iff.mp h
  rw [ofLog, List.foldl_append, List.foldl_cons, List.foldl_nil, find?_follow] at he
  rcases he with rfl | ⟨-, he⟩
  · have hsame : old.kind = e.kind := hkeep before id e after hlog.symm old hold
    exact Option.map_eq_some_iff.mpr ⟨old, hold, hsame.trans hkind⟩
  · exact Option.map_eq_some_iff.mpr ⟨e, he, hkind⟩

/-- What stays registered is of one kind all the time if no kinds are changed. -/
theorem hasKind_since {log before after since : List Event} {kind : Kind} {id : String}
    (hkeep : Event.KeepKinds log) (hlog : before ++ after <+: log)
    (hpresent : ∀ since, since <+: after → (ofLog (before ++ since)).Registers id)
    (hlast : (ofLog (before ++ after)).HasKind kind id) (hsince : since <+: after) :
    (ofLog (before ++ since)).HasKind kind id := by
  -- Going back event by event from the end, where the kind is known.
  induction after using List.reverseRecOn generalizing since with
  | nil => rwa [List.prefix_nil.mp hsince]
  | append_singleton after event ih =>
      rcases List.prefix_concat_iff.mp hsince with rfl | hsince
      · exact hlast
      · rw [← List.append_assoc] at hlog hlast
        have hthere := hpresent after (List.prefix_append ..)
        have hkind := hasKind_of_concat hkeep hlog hthere hlast
        exact ih ((List.prefix_append ..).trans hlog)
          (fun since hsince => hpresent since (hsince.trans (List.prefix_append ..))) hkind hsince

/-- If no kinds are changed, what came in first was the first to be of its kind. -/
theorem cameBefore_hasKind {log : List Event} {kind : Kind} {id id' : String}
    (hkeep : Event.KeepKinds log) (hid : (ofLog log).HasKind kind id)
    (h : Event.CameBefore Registers log id id') : Event.CameBefore (HasKind kind) log id id' := by
  obtain ⟨before, after, rfl, habsent, hpresent⟩ := h
  refine ⟨before, after, rfl, fun hkind => habsent ?_,
    fun since => hasKind_since hkeep List.prefix_rfl hpresent hid⟩
  obtain ⟨e, he, -⟩ := Option.map_eq_some_iff.mp hkind
  rw [Registers, he]
  rfl

end Catalog

namespace Session

open Catalog

theorem catalog_after_start (operations : List Operation) :
    (start.after operations).store.catalog = ofLog (start.log operations) :=
  catalog_after start operations

theorem labelled_after_start (operations : List Operation) :
    (start.after operations).store.Labelled :=
  have hempty : start.store.Labelled := nofun
  labelled_after consistent_empty hempty operations

/-- As long as no identifier is registered again for a record of another kind, every kind is gone
through in the order of all identifiers. -/
theorem ofKind_follows_ids {operations : List Operation}
    (hkeep : Event.KeepKinds (start.log operations)) (kind : Kind) :
    let c := (start.after operations).store.catalog
    c.ofKind kind = c.registered.filter (·.kind = kind) := by
  have hlog := catalog_after_start operations
  refine (Store.ofKind_eq_iff hlog (labelled_after_start operations) kind).mpr ?_
  intro id id' hid _ hbefore
  exact cameBefore_hasKind hkeep (hlog ▸ hid) hbefore

/-- **How a registry is gone through after any operations**: all identifiers in the order in which
they came in, a kind in the order in which its identifiers came to be of that kind.  So going
through a kind means going through its records in the order of all identifiers if and only if of
any two identifiers of the kind the one that came in first was the first to be of the kind. -/
theorem ofKind_follows_ids_iff (operations : List Operation) :
    let c := (start.after operations).store.catalog
    let log := start.log operations
    c.ids.Nodup ∧ c.ids.Pairwise (Event.CameBefore Registers log) ∧
      ∀ kind, c.ofKind kind = (c.index kind).keys.filterMap c.find? ∧
        (c.index kind).keys.Pairwise (Event.CameBefore (HasKind kind) log) ∧
        (c.ofKind kind = c.registered.filter (·.kind = kind) ↔
          ∀ id id', c.HasKind kind id → c.HasKind kind id' →
            Event.CameBefore Registers log id id' →
            Event.CameBefore (HasKind kind) log id id') := by
  intro c log
  have hlog : c = ofLog log := catalog_after_start operations
  have hc : c.Consistent := hlog ▸ consistent_ofLog log
  have hids : c.ids.Pairwise (Event.CameBefore Registers log) := hlog ▸ pairwise_ids log
  refine ⟨hc.nodup, hids, fun kind => ⟨hc.ofKind_eq kind, hlog ▸ pairwise_index kind log, ?_⟩⟩
  exact Store.ofKind_eq_iff hlog (labelled_after_start operations) kind

/-- A transform, a step definition, and then a step definition under the identifier of the
transform. -/
def replacing : List Operation := [
  .create (.transform { id := "a", keyword := "Transform", pattern := .text "x" }),
  .create (.definition { id := "b", keyword := "Given", pattern := .text "y" }),
  .create (.definition { id := "a", keyword := "Given", pattern := .text "z" }),
  .insert (.record (.transform ⟨0⟩)), .insert (.record (.definition ⟨0⟩)),
  .insert (.record (.definition ⟨1⟩))]

/-- What takes the place of a record of another kind is the last of its own kind, though it stands
first among all identifiers. -/
theorem moved_to_the_end :
    let c := (start.after replacing).store.catalog
    c.ids = ["a", "b"] ∧ c.ofKind .definition = [.definition ⟨0⟩, .definition ⟨1⟩] ∧
      c.registered.filter (·.kind = .definition) = [.definition ⟨1⟩, .definition ⟨0⟩] := by
  decide

end Session

end StepTrace
