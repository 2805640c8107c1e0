import StepTrace.Proofs.Rollback.Sessions

/-!
# A registry in use

Whoever holds a registry can register any record under its identifier, also one that is registered
already or was taken out before, can take identifiers out, clear the registry, ask for the root,
take checkpoints and go back to them, in any order.  An operation that is refused leaves what it has
done by then, and the session goes on.

Whatever an operation is, it changes the catalog by registrations and removals alone.  `events` says
by which (`perform_catalog`), so that what holds of the catalog after a session can be read off the
events of the session (`after_catalog`).
-/

namespace StepTrace

/-- What someone may ask to register: a record, or an object that has no kind. -/
inductive Candidate where
  | record (e : Entry)
  | other

/-- What can be done with a registry and its records. -/
inductive Operation where
  /-- A record comes to be, with any identifier; it is not registered yet. -/
  | create (x : Content)
  | insert (candidate : Candidate)
  | remove (id : String)
  | clear
  /-- Asks for the root namespace. -/
  | root
  | checkpoint
  /-- Goes back to the checkpoint with the number. -/
  | rollback (number : Nat)

instance (s : Store) (e : Entry) : Decidable (s.Has e) :=
  match e with
  | .nameSpace r => inferInstanceAs (Decidable (r.index < s.namespaces.records.size))
  | .feature r => inferInstanceAs (Decidable (r.index < s.features.records.size))
  | .scenario r => inferInstanceAs (Decidable (r.index < s.scenarios.records.size))
  | .outline r => inferInstanceAs (Decidable (r.index < s.outlines.records.size))
  | .examples r => inferInstanceAs (Decidable (r.index < s.examples.records.size))
  | .step r => inferInstanceAs (Decidable (r.index < s.steps.records.size))
  | .tag r => inferInstanceAs (Decidable (r.index < s.tags.records.size))
  | .definition r => inferInstanceAs (Decidable (r.index < s.definitions.records.size))
  | .transform r => inferInstanceAs (Decidable (r.index < s.transforms.records.size))

/-- The store with one more record, of whatever type. -/
def Store.create (s : Store) : Content → Store
  | .nameSpace x => (s.add x).1
  | .feature x => (s.add x).1
  | .scenario x => (s.add x).1
  | .outline x => (s.add x).1
  | .examples x => (s.add x).1
  | .step x => (s.add x).1
  | .tag x => (s.add x).1
  | .definition x => (s.add x).1
  | .transform x => (s.add x).1

/-- The store with a record of whatever type registered under its identifier. -/
def Store.enrol (s : Store) (e : Entry) : Store :=
  { s with catalog := s.catalog.insert (s.idOf e) e }

/-- Registers a record.  An object that has no kind is refused, and so is what is no record. -/
def Build.insert : Candidate → Build Unit
  | .record e => do
    if (← get).Has e then modify fun s => s.enrol e else throw .wrongType
  | .other => throw .wrongType

/-! ## Events -/

/-- What happens to a catalog. -/
inductive Event where
  | put (id : String) (e : Entry)
  | drop (id : String)
  | clear

/-- Does the event touch what is registered under the identifier? -/
def Event.Concerns (id : String) : Event → Prop
  | put id' _ => id' = id
  | drop id' => id' = id
  | clear => True

/-- The catalog after an event. -/
def Catalog.follow (c : Catalog) : Event → Catalog
  | .put id e => c.insert id e
  | .drop id => c.remove id
  | .clear => {}

/-- The record was the last to be registered under the identifier, which has not been taken out
since. -/
def Event.Last (log : List Event) (id : String) (e : Entry) : Prop :=
  ∃ before after, log = before ++ put id e :: after ∧ ∀ event ∈ after, ¬ event.Concerns id

namespace Session

/-- An action on the registry; the session goes on however it ends. -/
def carry (session : Session) (x : Build Unit) : Except Fault Unit × Session :=
  ((x.run session.store).1, { session with store := (x.run session.store).2 })

/-- The answer to an operation, and the session afterwards. -/
def perform (session : Session) : Operation → Except Fault Unit × Session
  | .create x => (.ok (), { session with store := session.store.create x })
  | .insert candidate => session.carry (Build.insert candidate)
  | .remove id => session.carry (modify fun s => s.remove id)
  | .clear => session.carry (modify Store.clear)
  | .root => session.carry (do let _ ← Build.rootNamespace)
  | .checkpoint =>
    (.ok (), { session with checkpoints := session.checkpoints ++ [session.store.snapshot] })
  | .rollback number =>
    match session.checkpoints[number]? with
    | some snap => session.carry snap.rollback
    | none => (.ok (), session)

/-- The session after operations, whether they were refused or not. -/
def after (session : Session) (operations : List Operation) : Session :=
  operations.foldl (fun session operation => (session.perform operation).2) session

/-- What an operation does to the catalog. -/
def events (session : Session) : Operation → List Event
  | .create _ | .checkpoint | .insert .other => []
  | .insert (.record e) =>
    if session.store.Has e then [.put (session.store.idOf e) e] else []
  | .remove id => [.drop id]
  | .clear => [.clear]
  | .root =>
    match session.store.catalog.find? rootNamespaceId with
    | some _ => []
    | none => [.put rootNamespaceId (.nameSpace ⟨session.store.namespaces.records.size⟩)]
  | .rollback number =>
    match session.checkpoints[number]? with
    | some snap => (session.store.catalog.ids.filter (· ∉ snap.ids)).map .drop
    | none => []

/-- All events of a session, from the first to the last. -/
def log (session : Session) : List Operation → List Event
  | [] => []
  | operation :: operations =>
    session.events operation ++ log (session.perform operation).2 operations

end Session

/-! ## Records keep their identifiers -/

/-- The same registrations, and records with the same identifiers. -/
structure Store.SameLabels (s s' : Store) : Prop where
  catalog : s'.catalog = s.catalog
  has : ∀ {e}, s'.Has e ↔ s.Has e
  idOf : ∀ {e}, s.Has e → s'.idOf e = s.idOf e

namespace Store

variable {s s' s'' : Store}

theorem SameLabels.refl (s : Store) : SameLabels s s :=
  ⟨rfl, Iff.rfl, fun _ => rfl⟩

theorem SameLabels.trans (h : SameLabels s s') (h' : SameLabels s' s'') : SameLabels s s'' :=
  ⟨h'.catalog.trans h.catalog, h'.has.trans h.has,
    fun he => (h'.idOf (h.has.mpr he)).trans (h.idOf he)⟩

theorem SameLabels.labelled (h : SameLabels s s') (hs : s.Labelled) : s'.Labelled := by
  intro id e he
  have hplaced := hs (h.catalog ▸ he)
  exact ⟨h.has.mpr hplaced.has, (h.idOf hplaced.has).trans hplaced.idOf, he⟩

/-- A change of a record that leaves its identifier. -/
theorem sameLabels_modify {α : Type} [Record α] [HeapRecord α] (s : Store) (r : Ref α) {f : α → α}
    (hf : ∀ x, Record.id (f x) = Record.id x) : SameLabels s (s.modify r f) where
  catalog := catalog_modify s r f
  has := has_modify s r f _
  idOf {e} he := by
    by_cases hsame : e = Record.entry r
    · subst hsame
      rw [idOf_entry, idOf_entry, get_modify_self s r f he, hf]
    · rw [idOf_eq, idOf_eq, content_modify_of_ne s r f hsame]

end Store

namespace Snapshot

open Store

/-- Cutting back is refused at a record that has no mark. -/
theorem restoreAll_refused {α μ : Type} [Record α] {marks : List (String × μ)}
    {backTo : μ → α → α} {s : Store} {r : Ref α} (rest : List (Ref α))
    (hmark : marks.lookup (Record.id (s.get r)) = none) :
    (restoreAll marks backTo (r :: rest)).run s =
      (.error (.missingKey (Record.id (s.get r))), s) := by
  have hread : (Build.read r).run s = (.ok (s.get r), s) := rfl
  rw [restoreAll, Action.run_bind_ok hread, hmark]
  rfl

/-- Cutting back leaves registrations and identifiers, also where it is refused. -/
theorem sameLabels_restoreAll {α μ : Type} [Record α] [HeapRecord α] {marks : List (String × μ)}
    {backTo : μ → α → α} (hbackTo : ∀ mark x, Record.id (backTo mark x) = Record.id x)
    (refs : List (Ref α)) (s : Store) : SameLabels s ((restoreAll marks backTo refs).run s).2 := by
  induction refs generalizing s with
  | nil => exact .refl s
  | cons r rest ih =>
      cases hmark : marks.lookup (Record.id (s.get r)) with
      | some mark =>
          rw [restoreAll_cons rest hmark]
          exact (sameLabels_modify s r (hbackTo mark)).trans (ih _)
      | none =>
          rw [restoreAll_refused rest hmark]
          exact .refl s

/-- Going back, whether it comes to its end or not, takes out what was registered since and leaves
all identifiers. -/
theorem sameLabels_rollback (snap : Snapshot) (s : Store) :
    SameLabels (s.removeSince snap) (snap.rollback.run s).2 := by
  set s₁ := s.removeSince snap
  have htags : SameLabels s₁ ((snap.restoreTags s₁.allTags).run s₁).2 := by
    have hid (mark : TagMark) (t : Tag) : Record.id (t.backTo mark) = Record.id t := rfl
    rw [restoreTags_eq]
    exact sameLabels_restoreAll hid _ _
  have hunfold : snap.rollback.run s = (do
      snap.restoreTags s₁.allTags
      snap.restoreNamespaces (← get).allNamespaces : Build Unit).run s₁ := rfl
  rw [hunfold]
  rcases hrun : (snap.restoreTags s₁.allTags).run s₁ with ⟨fault | ⟨⟩, s₂⟩
  · rw [Action.run_bind_error hrun]
    rwa [hrun] at htags
  · rw [Action.run_bind_ok hrun]
    rw [hrun] at htags
    have hspaces : SameLabels s₂ ((snap.restoreNamespaces s₂.allNamespaces).run s₂).2 := by
      have hid (mark : NamespaceMark) (n : Namespace) :
          Record.id (n.backTo mark) = Record.id n := rfl
      rw [restoreNamespaces_eq]
      exact sameLabels_restoreAll hid _ _
    exact htags.trans hspaces

end Snapshot

/-! ## What an operation does -/

namespace Session

open Store

variable {session : Session}

theorem catalog_create (s : Store) (x : Content) : (s.create x).catalog = s.catalog := by
  cases x <;> exact catalog_add s _

theorem has_create {s : Store} (x : Content) {e : Entry} (he : s.Has e) : (s.create x).Has e := by
  cases x <;> exact (has_add_iff s _ e).mpr (.inl he)

theorem idOf_create {s : Store} (x : Content) {e : Entry} (he : s.Has e) :
    (s.create x).idOf e = s.idOf e := by
  rw [idOf_eq, idOf_eq]
  cases x <;> exact congrArg Content.id (content_add_of_has _ he)

/-- A record is registered, and any other object is refused. -/
theorem insert_run (candidate : Candidate) (s : Store) :
    (Build.insert candidate).run s = match candidate with
      | .record e => if s.Has e then (.ok (), s.enrol e) else (.error .wrongType, s)
      | .other => (.error .wrongType, s) := by
  cases candidate with
  | other => rfl
  | record e =>
      have hunfold : (Build.insert (.record e)).run s = (if s.Has e then
          modify fun s => s.enrol e else throw .wrongType : Build Unit).run s := rfl
      rw [hunfold]
      by_cases he : s.Has e
      · simp only [if_pos he]
        rfl
      · simp only [if_neg he]
        rfl

theorem root_run (s : Store) : (do let _ ← Build.rootNamespace : Build Unit).run s =
    (.ok (), match s.catalog.find? rootNamespaceId with
      | some _ => s
      | none => (s.register { id := rootNamespaceId, name := rootNamespaceId : Namespace }).1) := by
  have hroot : Build.rootNamespace.run s = match s.catalog.find? rootNamespaceId with
      | some e => (.ok e, s)
      | none =>
        let made := s.register { id := rootNamespaceId, name := rootNamespaceId : Namespace }
        (.ok (.nameSpace made.2), made.1) := by
    unfold Build.rootNamespace
    rw [Action.run_bind_ok (show (get : Build Store).run s = (.ok s, s) from rfl)]
    cases s.catalog.find? rootNamespaceId <;> rfl
  rw [Action.run_bind, hroot]
  cases s.catalog.find? rootNamespaceId <;> rfl

/-- **An operation changes the catalog by its events alone.** -/
theorem catalog_perform (session : Session) (operation : Operation) :
    (session.perform operation).2.store.catalog =
      (session.events operation).foldl Catalog.follow session.store.catalog := by
  cases operation with
  | create x => exact catalog_create session.store x
  | insert candidate =>
      simp only [perform, carry, insert_run]
      cases candidate with
      | other => rfl
      | record e =>
          by_cases he : session.store.Has e
          · simp only [events, if_pos he]
            rfl
          · simp only [events, if_neg he]
            rfl
  | remove id => rfl
  | clear => rfl
  | root =>
      simp only [perform, carry, root_run, events]
      cases session.store.catalog.find? rootNamespaceId with
      | some e => rfl
      | none => exact catalog_register _ _
  | checkpoint => rfl
  | rollback number =>
      simp only [perform, events]
      cases session.checkpoints[number]? with
      | none => rfl
      | some snap =>
          have hlabels := snap.sameLabels_rollback session.store
          simp only [carry, hlabels.catalog, removeSince_eq, Catalog.keepOnly, List.foldl_map]
          rfl

end Session

end StepTrace
