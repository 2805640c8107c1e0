import StepTrace.Proofs.Action
import StepTrace.Proofs.Manifest.Numbering
import StepTrace.Proofs.Linking.Search
import StepTrace.Proofs.Store.Content

/-!
# What a manifest registers

The records of a manifest come in one after the other, first the definitions and then the transforms,
each as a new record under the identifier that it gives or gets (`Arrival`).  Whether all of them are
still registered in the end, and as themselves, depends on the identifiers alone
(`register_keeps_all_iff`): a record is lost if and only if one gives an identifier that is numbered
for another.
-/

namespace StepTrace

open Store HeapRecord

namespace Manifest

/-! ## Records that come in -/

/-- Records of one kind have come in: under these identifiers, as new records of these references. -/
structure Arrival {α : Type} [Record α] [HeapRecord α] (kind : Kind) (nodes : List Value)
    (refs : List (Ref α)) (filed : List (String × Entry)) (s s' : Store) : Prop where
  filing : Filed s.catalog (nodes.map (kind, ·)) filed
  catalog : s'.catalog = s.catalog.insertAll filed
  entries : filed.map (·.2) = refs.map Record.entry
  ids : filed.map (·.1) = refs.map fun r => Record.id (s'.get r)
  kept : ∀ e, s.Has e → s'.Has e ∧ s'.content e = s.content e
  new : ∀ r ∈ refs, ¬ s.Has (Record.entry r) ∧ s'.Has (Record.entry r)
  nodup : refs.Nodup

section

variable {α : Type} [Record α] [HeapRecord α] {kind : Kind} {nodes : List Value}
variable {refs : List (Ref α)} {filed : List (String × Entry)} {s s₁ s' : Store} {node : Value}

theorem Arrival.nil (s : Store) : Arrival (α := α) kind [] [] [] s s :=
  ⟨.nil _, rfl, rfl, rfl, fun _ he => ⟨he, rfl⟩, nofun, List.nodup_nil⟩

/-- One record comes in before the others. -/
theorem Arrival.cons (hkind : ∀ r : Ref α, (Record.entry r).kind = kind) {x : α}
    (hid : Record.id x = recordId node kind.word (s.catalog.count kind))
    (h : Arrival kind nodes refs filed (s.register x).1 s') :
    Arrival kind (node :: nodes) ((s.register x).2 :: refs)
      ((Record.id x, Record.entry (s.register x).2) :: filed) s s' := by
  obtain rfl := hkind (s.register x).2
  have hhas : (s.register x).1.Has (Record.entry (s.register x).2) := has_register_self s x
  have hget : s'.get (s.register x).2 = x :=
    (get_eq_of_content_eq (h.kept _ hhas).2).trans (get_register_self s x)
  refine ⟨.cons _ hid ?_, ?_, ?_, ?_, fun e he => ?_, ?_, ?_⟩
  · rw [← catalog_register]
    exact h.filing
  · rw [h.catalog, catalog_register]
    rfl
  · exact congrArg (List.cons _) h.entries
  · rw [List.map_cons, List.map_cons, h.ids, hget]
  · obtain ⟨hhas', hcontent⟩ := h.kept e ((has_register_iff s x e).mpr (Or.inl he))
    exact ⟨hhas', hcontent.trans (content_register_of_has x he)⟩
  · refine List.forall_mem_cons.mpr ⟨⟨not_has_register_self s x, (h.kept _ hhas).1⟩, fun r hr => ?_⟩
    exact ⟨fun hold => (h.new r hr).1 ((has_register_iff s x _).mpr (Or.inl hold)), (h.new r hr).2⟩
  · exact List.nodup_cons.mpr ⟨fun hmem => (h.new _ hmem).1 hhas, h.nodup⟩

/-- What one round of a loop registers, the whole loop registers. -/
theorem mapM_arrival (hkind : ∀ r : Ref α, (Record.entry r).kind = kind)
    {f : Value → Job (Ref α)} (hf : ∀ entry w r w', (f entry).run w = (.ok r, w') →
      ∃ x : α, Record.id x = recordId entry kind.word (w.store.catalog.count kind) ∧
        w.store.register x = (w'.store, r))
    {w w' : Work} (hrun : (nodes.mapM f).run w = (.ok refs, w')) :
    ∃ filed, Arrival kind nodes refs filed w.store w'.store := by
  induction nodes generalizing w refs with
  | nil =>
      cases hrun
      exact ⟨[], .nil _⟩
  | cons node nodes ih =>
      rw [List.mapM_cons] at hrun
      obtain ⟨r, w₁, hfirst, hrun⟩ := Action.run_bind_eq_ok hrun
      obtain ⟨rest, w₂, hrest, hend⟩ := Action.run_bind_eq_ok hrun
      cases hend
      obtain ⟨x, hid, hregister⟩ := hf node w r w₁ hfirst
      obtain ⟨filed, h⟩ := ih hrest
      have hstore : (w.store.register x).1 = w₁.store := congrArg Prod.fst hregister
      have href : (w.store.register x).2 = r := congrArg Prod.snd hregister
      rw [← hstore] at h
      rw [← href]
      exact ⟨_, h.cons hkind hid⟩

end

/-! ## Rounds of the two loops -/

variable {constants : Constants} {source : String} {entry : Value} {w w' : Work}

theorem patternOf_store {pattern : Value}
    (h : (patternOf constants entry source).run w = (.ok pattern, w')) : w'.store = w.store := by
  unfold patternOf at h
  obtain ⟨written, w₁, hwritten, h⟩ := Action.run_bind_eq_ok h
  have hsame : w₁ = w := by
    cases hpattern : writtenPattern entry source with
    | ok _ =>
        rw [hpattern] at hwritten
        cases hwritten
        rfl
    | error _ =>
        rw [hpattern] at hwritten
        cases hwritten
  cases h
  rw [hsame]

theorem registerDefinition_ok {d : Ref Definition}
    (h : (registerDefinition constants source entry).run w = (.ok d, w')) :
    ∃ x : Definition, x.id = recordId entry Kind.definition.word (w.store.catalog.count .definition) ∧
      w.store.register x = (w'.store, d) := by
  unfold registerDefinition at h
  rw [Action.run_bind_ok (Job.store_run w)] at h
  obtain ⟨pattern, w₁, hpattern, h⟩ := Action.run_bind_eq_ok h
  have hstore := patternOf_store hpattern
  cases h
  exact ⟨_, rfl, by rw [hstore]⟩

theorem registerTransform_ok {t : Ref Transform}
    (h : (registerTransform constants source entry).run w = (.ok t, w')) :
    ∃ x : Transform, x.id = recordId entry Kind.transform.word (w.store.catalog.count .transform) ∧
      w.store.register x = (w'.store, t) := by
  have hafter : ∀ {keyword : String} {w : Work}, (do
      let s ← Job.store
      let pattern ← patternOf constants entry source
      Job.build (Build.register {
        id := recordId entry "step_transform" (s.catalog.count .transform)
        keyword
        pattern
        source := (entryField entry "source" (.text "")).display : Transform }) :
        Job (Ref Transform)).run w = (.ok t, w') →
      ∃ x : Transform,
        x.id = recordId entry Kind.transform.word (w.store.catalog.count .transform) ∧
          w.store.register x = (w'.store, t) := by
    intro keyword w h
    rw [Action.run_bind_ok (Job.store_run w)] at h
    obtain ⟨pattern, w₁, hpattern, h⟩ := Action.run_bind_eq_ok h
    have hstore := patternOf_store hpattern
    cases h
    exact ⟨_, rfl, by rw [hstore]⟩
  unfold registerTransform at h
  dsimp only at h
  split at h
  · obtain ⟨_, w₁, hwarn, h⟩ := Action.run_bind_eq_ok h
    cases hwarn
    obtain ⟨x, hid, hregister⟩ := hafter h
    exact ⟨x, hid, hregister⟩
  · exact hafter h

/-! ## The whole manifest -/

/-- The records that a manifest lists under a key. -/
def listed (data : Value) (key : String) : List Value :=
  ((entryField data key .null).orElse (.list [])).items?.getD []

/-- The records of a manifest that are registered, in their order, with their kinds. -/
def acceptedRecords (data : Value) (stepKeywords : List Value) : List (Kind × Value) :=
  ((listed data definitionsKey).filter fun entry =>
    stepKeywords.any (·.isText (definitionKeyword entry))).map (.definition, ·) ++
      (listed data transformsKey).map (.transform, ·)

theorem listed_of_records {data : Value} {key : String} {entries : List Value}
    (h : records data key source = .ok entries) : listed data key = entries := by
  unfold records at h
  unfold listed
  split at h
  · rename_i items hitems
    split at h
    · cases h
      rw [hitems]
      rfl
    · cases h
  · cases h

theorem check_run_ok {α : Type} {result : Except ManifestFault α} {a : α}
    (h : (check result).run w = (.ok a, w')) : result = .ok a ∧ w' = w := by
  cases result with
  | ok a' =>
      cases h
      exact ⟨rfl, rfl⟩
  | error fault => cases h

/-- A manifest that is not refused registers its definitions, and then its transforms. -/
theorem register_arrivals {data : Value} {stepKeywords : List Value} {ds : List (Ref Definition)}
    {ts : List (Ref Transform)}
    (hrun : (register data stepKeywords source).run w = (.ok (ds, ts), w')) :
    ∃ definitions transforms filed later s,
      acceptedRecords data stepKeywords =
        definitions.map (.definition, ·) ++ transforms.map (.transform, ·) ∧
      Arrival .definition definitions ds filed w.store s ∧
      Arrival .transform transforms ts later s w'.store := by
  unfold register at hrun
  split at hrun
  · rename_i hnull
    cases hrun
    have hdata : data = .null := by cases data <;> simp_all [Value.nonNull?]
    subst hdata
    exact ⟨[], [], [], [], w.store, rfl, .nil _, .nil _⟩
  · split at hrun
    · cases hrun
    · obtain ⟨constants, w₁, hconstants, hrun₁⟩ := Action.run_bind_eq_ok hrun
      obtain ⟨definitions, w₂, hdefinitions, hrun₂⟩ := Action.run_bind_eq_ok hrun₁
      dsimp only at hrun₂
      obtain ⟨ds', w₃, hds, hrun₃⟩ := Action.run_bind_eq_ok hrun₂
      obtain ⟨transforms, w₄, htransforms, hrun₄⟩ := Action.run_bind_eq_ok hrun₃
      obtain ⟨ts', w₅, hts, hend⟩ := Action.run_bind_eq_ok hrun₄
      cases hend
      obtain ⟨-, rfl⟩ := check_run_ok hconstants
      obtain ⟨hlisted, rfl⟩ := check_run_ok hdefinitions
      obtain ⟨hlisted', rfl⟩ := check_run_ok htransforms
      obtain ⟨filed, hfiled⟩ := mapM_arrival (fun _ => rfl)
        (fun _ _ _ _ => registerDefinition_ok) hds
      obtain ⟨later, hlater⟩ := mapM_arrival (fun _ => rfl)
        (fun _ _ _ _ => registerTransform_ok) hts
      refine ⟨_, _, filed, later, _, ?_, hfiled, hlater⟩
      rw [acceptedRecords, listed_of_records hlisted, listed_of_records hlisted']

/-- In an empty catalog there is nothing of any kind. -/
theorem ofKind_of_empty {c : Catalog} (hc : c.Consistent) (hempty : c.ids = []) (kind : Kind) :
    c.ofKind kind = [] := by
  refine List.eq_nil_iff_forall_not_mem.mpr fun e he => ?_
  obtain ⟨id, hid, -⟩ := hc.mem_ofKind.mp he
  have hmem := Catalog.mem_ids_iff.mpr ⟨e, hid⟩
  rw [hempty] at hmem
  cases hmem

/-- How many come before the first. -/
def noneBefore : Kind → Nat := fun _ => 0

section

variable {data : Value} {stepKeywords : List Value} {ds : List (Ref Definition)}
variable {ts : List (Ref Transform)}

/-- What has been registered, all in all. -/
theorem register_filed
    (hrun : (register data stepKeywords source).run w = (.ok (ds, ts), w')) :
    ∃ filed, Filed w.store.catalog (acceptedRecords data stepKeywords) filed ∧
      w'.store.catalog = w.store.catalog.insertAll filed ∧
      filed.map (·.2) = ds.map .definition ++ ts.map .transform ∧ (filed.map (·.2)).Nodup ∧
      filed.map (·.1) =
        (ds.map fun d => (w'.store.get d).id) ++ ts.map fun t => (w'.store.get t).id := by
  obtain ⟨definitions, transforms, filed, later, s, hrecords, h, h'⟩ := register_arrivals hrun
  have hentries : (filed ++ later).map (·.2) = ds.map .definition ++ ts.map .transform := by
    rw [List.map_append, h.entries, h'.entries]
    rfl
  refine ⟨filed ++ later, ?_, ?_, hentries, ?_, ?_⟩
  · rw [hrecords]
    exact h.filing.append (h.catalog ▸ h'.filing)
  · rw [h'.catalog, h.catalog, Catalog.insertAll_append]
  · rw [hentries]
    refine List.nodup_append'.mpr ⟨h.nodup.map fun _ _ => Entry.definition.inj,
      h'.nodup.map fun _ _ => Entry.transform.inj, fun e hd ht => ?_⟩
    obtain ⟨d, -, rfl⟩ := List.mem_map.mp hd
    obtain ⟨t, -, ht⟩ := List.mem_map.mp ht
    cases ht
  · -- the transforms that come in leave the definitions as they are
    have hsame : ∀ d ∈ ds, (w'.store.get d).id = (s.get d).id := fun d hd =>
      congrArg Definition.id (get_eq_of_content_eq (h'.kept _ (h.new d hd).2).2)
    rw [List.map_append, h.ids, h'.ids, List.map_congr_left hsame]
    rfl

/-- **No record of a manifest is lost if and only if no identifier that is given is one that is
numbered for another record.**  Then the registered definitions and transforms are those that were
returned, in their order, and all identifiers are different. -/
theorem register_keeps_all_iff (hc : w.store.catalog.Consistent)
    (hempty : w.store.catalog.ids = [])
    (hgiven : (givenIds (acceptedRecords data stepKeywords)).Nodup)
    (hrun : (register data stepKeywords source).run w = (.ok (ds, ts), w')) :
    (((ds.map fun d => (w'.store.get d).id) ++ ts.map fun t => (w'.store.get t).id).Nodup ↔
      (givenIds (acceptedRecords data stepKeywords)).Disjoint
        (numberedIds noneBefore (acceptedRecords data stepKeywords))) ∧
    (w'.store.allDefinitions = ds ∧ w'.store.allTransforms = ts ↔
      (givenIds (acceptedRecords data stepKeywords)).Disjoint
        (numberedIds noneBefore (acceptedRecords data stepKeywords))) := by
  obtain ⟨filed, hfiled, hcatalog, hentries, hnodup, hids⟩ := register_filed hrun
  have hcounts : w.store.catalog.count = noneBefore := funext fun kind => by
    rw [Catalog.count_eq_length, ofKind_of_empty hc hempty]
    rfl
  have hnominal : (filed.map (·.1)).Nodup ↔ (givenIds (acceptedRecords data stepKeywords)).Disjoint
      (numberedIds noneBefore (acceptedRecords data stepKeywords)) := by
    rw [hfiled.nodup_iff hc hempty, hcounts]
    exact nodup_nominalIds_iff hgiven
  have hc' : w'.store.catalog.Consistent := hcatalog ▸ hc.insertAll filed
  have hkinds (kind : Kind) (hdistinct : (filed.map (·.1)).Nodup) : w'.store.catalog.ofKind kind =
      (ds.map Entry.definition ++ ts.map Entry.transform).filter (·.kind = kind) := by
    rw [hcatalog, hc.ofKind_insertAll (by rwa [hempty]), ofKind_of_empty hc hempty, hentries]
    rfl
  rw [← hids, ← hnominal]
  refine ⟨Iff.rfl, fun ⟨hds, hts⟩ => ?_, fun hdistinct => ⟨?_, ?_⟩⟩
  · refine Catalog.nodup_of_registered hempty hnodup fun p hp => ?_
    rw [← hcatalog]
    have hmem : p.2 ∈ ds.map Entry.definition ++ ts.map Entry.transform :=
      hentries ▸ List.mem_map_of_mem hp
    rcases List.mem_append.mp hmem with hmem | hmem
    · obtain ⟨d, hd, heq⟩ := List.mem_map.mp hmem
      rw [← heq]
      exact (mem_allDefinitions hc').mp (hds ▸ hd)
    · obtain ⟨t, ht, heq⟩ := List.mem_map.mp hmem
      rw [← heq]
      exact (mem_allTransforms hc').mp (hts ▸ ht)
  · rw [allDefinitions, hkinds .definition hdistinct]
    simp [List.filter_map, List.filterMap_map, Function.comp_def, Entry.kind]
  · rw [allTransforms, hkinds .transform hdistinct]
    simp [List.filter_map, List.filterMap_map, Function.comp_def, Entry.kind]

end

/-- A manifest of definitions, each with or without an identifier, and of one transform without. -/
private def manifestOf (ids : List (Option String)) : Value :=
  let record (id : Option String) : Value := .ofFields
    (id.toList.map (fun id => ("id", .text id)) ++
      [("keyword", .text "Given"), ("pattern", .text "a room")])
  .ofFields [(definitionsKey, .list (ids.map record)), (transformsKey, .list [record none])]

private def registerIds (ids : List (Option String)) :
    Job (List (Ref Definition) × List (Ref Transform)) :=
  register (manifestOf ids) [.text "Given"] "rooms.yaml"

/-- A given identifier between two numbered ones. -/
theorem register_keeps_all_iff_rooms : ∃ ds ts w,
    (registerIds [none, some "login", none]).run { store := {} } = (.ok (ds, ts), w) ∧
      (ds.map fun d => (w.store.get d).id) = ["step_definition1", "login", "step_definition3"] ∧
      w.store.allDefinitions = ds ∧ w.store.allTransforms = ts := by
  have hids : ((registerIds [none, some "login", none]).run { store := {} }).1.toOption.map (fun refs =>
      refs.1.map fun d => (((registerIds [none, some "login", none]).run { store := {} }).2.store.get
        d).id) = some ["step_definition1", "login", "step_definition3"] := by
    decide +kernel
  have hkept (ds : List (Ref Definition)) (ts : List (Ref Transform)) (w : Work)
      (hrun : (registerIds [none, some "login", none]).run { store := {} } = (.ok (ds, ts), w)) :=
    (register_keeps_all_iff Catalog.consistent_empty rfl (by decide +kernel) hrun).2.mpr
      (show ∀ id ∈ givenIds _, id ∉ numberedIds noneBefore _ by decide +kernel)
  generalize (registerIds [none, some "login", none]).run { store := {} } = left at hids hkept
  obtain ⟨fault | ⟨ds, ts⟩, w⟩ := left
  · cases hids
  · exact ⟨ds, ts, w, rfl, Option.some.inj hids, hkept ds ts w rfl⟩

/-- **A record can take the identifier that is numbered for the next one**, which then takes its
place. -/
theorem numbered_id_given : ¬ ∀ (data : Value) (stepKeywords : List Value) (source : String)
    (w w' : Work) (ds : List (Ref Definition)) (ts : List (Ref Transform)),
    w.store.catalog.Consistent → w.store.catalog.ids = [] →
    (givenIds (acceptedRecords data stepKeywords)).Nodup →
    (register data stepKeywords source).run w = (.ok (ds, ts), w') →
      w'.store.allDefinitions = ds ∧ w'.store.allTransforms = ts := by
  intro hall
  have hlengths : ((registerIds [some "step_definition2", none]).run { store := {} }).1.toOption.map
      (·.1.length) = some 2 ∧
    ((registerIds [some "step_definition2", none]).run { store := {} }).2.store.allDefinitions.length =
      1 := by decide +kernel
  have hkept := hall (manifestOf [some "step_definition2", none]) [.text "Given"] "rooms.yaml"
    { store := {} }
  change ∀ w' ds ts, _ → _ → _ →
    (registerIds [some "step_definition2", none]).run { store := {} } = _ → _ at hkept
  generalize (registerIds [some "step_definition2", none]).run { store := {} } = left
    at hlengths hkept
  obtain ⟨fault | ⟨ds, ts⟩, w'⟩ := left
  · cases hlengths.1
  · obtain ⟨hds, -⟩ := hkept w' ds ts Catalog.consistent_empty rfl (by decide +kernel) rfl
    have htwo : ds.length = 2 := Option.some.inj hlengths.1
    have hone : w'.store.allDefinitions.length = 1 := hlengths.2
    rw [hds, htwo] at hone
    cases hone

end Manifest

end StepTrace
