import StepTrace.Proofs.Manifest.Registered

/-!
# Manifests that are refused

A manifest is refused for its shape before any of its records is registered, and for a record when
those before it are (`Misshapen`, `CutBeforeFault`).  What stays registered is what the manifest cut
just before its first fault registers: the cut manifest is accepted, and the two runs go the same
way up to the fault.

* `Faulty` lists the faults that a manifest can have.
* `misshapen_run` says that a fault of the shape leaves everything as it was.
* `CutBeforeFault.run` compares the refused manifest with the cut one.
* `register_up_to_fault` puts this together for all manifests.
-/

namespace StepTrace.Manifest

variable {data v entry : Value} {key other source : String} {entries before after : List Value}
  {stepKeywords : List Value} {constants : Constants} {w w' : Work}

/-! ## The faults of a manifest -/

/-- The value under the key counts as present, and is not a list of mappings. -/
def Unlisted (data : Value) (key : String) : Prop :=
  ∃ v, data.lookup? key = some v ∧ v.isPresent = true ∧
    ∀ entries, v.items? = some entries → ∃ entry ∈ entries, entry.isMap = false

/-- The record is among those that are registered, and has no pattern. -/
def Lacking (stepKeywords : List Value) (entry : Value) : Prop :=
  stepKeywords.any (·.isText (definitionKeyword entry)) = true ∧ entry.lookup? "pattern" = none

instance (stepKeywords : List Value) (entry : Value) : Decidable (Lacking stepKeywords entry) :=
  inferInstanceAs (Decidable (_ ∧ _))

/-- The manifest is at fault before it comes to any record. -/
inductive Misshapen (data : Value) : Prop
  | notMapping (hnull : data ≠ .null) (hmap : data.isMap = false)
  | constants {v : Value} (h : data.lookup? "constants" = some v) (hpresent : v.isPresent = true)
      (hmap : v.isMap = false)
  | definitions (h : Unlisted data definitionsKey)

/-- What a manifest can be refused for. -/
inductive Faulty (stepKeywords : List Value) (data : Value) : Prop
  | misshapen (h : Misshapen data)
  | definition {entry : Value} (hmem : entry ∈ listed data definitionsKey)
      (h : Lacking stepKeywords entry)
  | transforms (h : Unlisted data transformsKey)
  | transform {entry : Value} (hmem : entry ∈ listed data transformsKey)
      (h : entry.lookup? "pattern" = none)

/-! ## Manifests with other records -/

/-- The manifest with other records under a key that it has. -/
def withRecords (key : String) (entries : List Value) (data : Value) : Value :=
  match data.untied with
  | .map fields => .map (fields.map fun field =>
      if field.1.isText key then (field.1, .list entries) else field)
  | _ => data

/-- The manifest has been cut just before its first fault, which is one of its records or the list
of its transforms.  Transforms come behind all definitions. -/
inductive CutBeforeFault (stepKeywords : List Value) (data : Value) : Value → Prop
  | definition {before : List Value} {entry : Value} {after : List Value}
      (hlisted : listed data definitionsKey = before ++ entry :: after)
      (hbefore : ∀ e ∈ before, ¬Lacking stepKeywords e) (h : Lacking stepKeywords entry) :
      CutBeforeFault stepKeywords data
        (withRecords transformsKey [] (withRecords definitionsKey before data))
  | transforms (hdefinitions : ∀ e ∈ listed data definitionsKey, ¬Lacking stepKeywords e)
      (h : Unlisted data transformsKey) :
      CutBeforeFault stepKeywords data (withRecords transformsKey [] data)
  | transform {before : List Value} {entry : Value} {after : List Value}
      (hdefinitions : ∀ e ∈ listed data definitionsKey, ¬Lacking stepKeywords e)
      (hshape : ¬Unlisted data transformsKey)
      (hlisted : listed data transformsKey = before ++ entry :: after)
      (hbefore : ∀ e ∈ before, e.lookup? "pattern" ≠ none) (h : entry.lookup? "pattern" = none) :
      CutBeforeFault stepKeywords data (withRecords transformsKey before data)

/-! ## Looking into manifests -/

theorem lookup?_eq (data : Value) (key : String) : data.lookup? key =
    match data.untied with
    | .map fields => Value.findField? key fields
    | _ => none := by
  cases data <;> rfl

theorem findField?_map (key other : String) (fields : List (Value × Value)) :
    Value.findField? other (fields.map fun field =>
        if field.1.isText key then (field.1, .list entries) else field) =
      if other = key then (Value.findField? other fields).map fun _ => .list entries
      else Value.findField? other fields := by
  induction fields with
  | nil => simp [Value.findField?]
  | cons field fields ih =>
    obtain ⟨name, value⟩ := field
    simp only [Value.findField?, List.map_cons, List.find?_cons] at ih ⊢
    by_cases hname : name.isText other = true
    · obtain rfl := Value.isText_iff.mp hname
      by_cases hother : other = key
      · subst hother
        simp [Value.isText]
      · simp [Value.isText, hother]
    · have hsame : (if name.isText key = true then (name, Value.list entries)
          else (name, value)).1 = name := by split <;> rfl
      simp only [hsame, hname]
      exact ih

theorem lookup?_withRecords (key other : String) (entries : List Value) (data : Value) :
    (withRecords key entries data).lookup? other =
      if other = key then (data.lookup? other).map fun _ => .list entries
      else data.lookup? other := by
  rw [lookup?_eq data, withRecords]
  cases hdata : data.untied with
  | map fields => exact findField?_map key other fields
  | _ =>
    rw [lookup?_eq data, hdata]
    simp

theorem isMap_withRecords (h : data.isMap = true) :
    (withRecords key entries data).isMap = true := by
  unfold withRecords
  split
  · rfl
  · exact h

/-- What counts as present under a key is taken for its records. -/
theorem recordsValue_of_present (h : data.lookup? key = some v) (hpresent : v.isPresent = true) :
    (entryField data key .null).orElse (.list []) = v := by
  rw [entryField, h, Option.getD_some, Value.orElse, if_pos hpresent]

theorem recordsValue_of_absent (h : ∀ v, data.lookup? key = some v → v.isPresent = false) :
    (entryField data key .null).orElse (.list []) = .list [] := by
  have habsent : (entryField data key .null).isPresent = false := by
    rw [entryField]
    cases hv : data.lookup? key with
    | none => rfl
    | some v => exact h v hv
  rw [Value.orElse, if_neg (by simp [habsent])]

theorem records_of_listed (h : ¬Unlisted data key) (source : String) :
    records data key source = .ok (listed data key) := by
  unfold records listed
  by_cases hpresent : ∃ v, data.lookup? key = some v ∧ v.isPresent = true
  · obtain ⟨v, hv, hpresent⟩ := hpresent
    rw [recordsValue_of_present hv hpresent]
    cases hitems : v.items? with
    | none => exact absurd ⟨v, hv, hpresent, by simp [hitems]⟩ h
    | some entries =>
      have hall : entries.all Value.isMap = true := by
        rw [List.all_eq_true]
        intro entry hmem
        by_contra hmap
        refine h ⟨v, hv, hpresent, fun entries' h' => ⟨entry, ?_, by simpa using hmap⟩⟩
        obtain rfl : entries = entries' := by simpa [hitems] using h'
        exact hmem
      simp [hall]
  · have habsent : ∀ v, data.lookup? key = some v → v.isPresent = false := fun v hv =>
      Bool.eq_false_iff.mpr fun hv' => hpresent ⟨v, hv, hv'⟩
    rw [recordsValue_of_absent habsent]
    rfl

theorem records_of_unlisted (h : Unlisted data key) (source : String) :
    ∃ fault, records data key source = .error fault := by
  obtain ⟨v, hv, hpresent, hitems⟩ := h
  unfold records
  rw [recordsValue_of_present hv hpresent]
  cases hfound : v.items? with
  | none => exact ⟨_, rfl⟩
  | some entries =>
    obtain ⟨entry, hmem, hmap⟩ := hitems entries hfound
    have hall : entries.all Value.isMap = false :=
      List.all_eq_false.mpr ⟨entry, hmem, by simp [hmap]⟩
    simp [hall]

/-- Records are mappings, and there are some only where the manifest has the key. -/
theorem isMap_of_mem_listed (h : ¬Unlisted data key) (hmem : entry ∈ listed data key) :
    entry.isMap = true ∧ (data.lookup? key).isSome := by
  have hrecords := records_of_listed h ""
  unfold records at hrecords
  split at hrecords
  next items hitems =>
    split at hrecords
    next hall =>
      obtain rfl : items = listed data key := by simpa using hrecords
      refine ⟨List.all_eq_true.mp hall entry hmem, ?_⟩
      by_contra hnone
      have habsent : ∀ v, data.lookup? key = some v → v.isPresent = false := fun v hv => by
        simp [hv] at hnone
      rw [listed, recordsValue_of_absent habsent] at hmem
      simp [Value.items?] at hmem
    next => cases hrecords
  next => cases hrecords

/-- A manifest without records under a key is never at fault there. -/
theorem records_withRecords_nil (key : String) (data : Value) (source : String) :
    records (withRecords key [] data) key source = .ok [] := by
  have habsent : ∀ v, (withRecords key [] data).lookup? key = some v → v.isPresent = false := by
    intro v hv
    rw [lookup?_withRecords, if_pos rfl] at hv
    obtain ⟨-, -, rfl⟩ := Option.map_eq_some_iff.mp hv
    rfl
  rw [records, recordsValue_of_absent habsent]
  rfl

/-- The other records are those of the manifest now. -/
theorem records_withRecords (h : ¬Unlisted data key) (hsub : entries ⊆ listed data key)
    (source : String) : records (withRecords key entries data) key source = .ok entries := by
  cases entries with
  | nil => exact records_withRecords_nil key data source
  | cons first rest =>
    have hfirst : first ∈ listed data key := hsub List.mem_cons_self
    obtain ⟨v, hv⟩ := Option.isSome_iff_exists.mp (isMap_of_mem_listed h hfirst).2
    have hlookup := lookup?_withRecords key key (first :: rest) data
    rw [if_pos rfl, hv] at hlookup
    have hall : (first :: rest).all Value.isMap = true :=
      List.all_eq_true.mpr fun entry hmem => (isMap_of_mem_listed h (hsub hmem)).1
    rw [records, recordsValue_of_present hlookup rfl]
    simp only [Value.items?, hall, ↓reduceIte]

theorem records_withRecords_of_ne (h : other ≠ key) (source : String) :
    records (withRecords key entries data) other source = records data other source := by
  simp only [records, entryField, lookup?_withRecords, if_neg h]

theorem constants_withRecords (h : "constants" ≠ key) (source : String) :
    Manifest.constants (withRecords key entries data) source =
      Manifest.constants data source := by
  unfold Manifest.constants entryField
  rw [lookup?_withRecords, if_neg h]

/-- Without a fault of the constants they are read. -/
theorem exists_constants (h : ¬Misshapen data) (source : String) :
    ∃ constants, Manifest.constants data source = .ok constants := by
  unfold Manifest.constants
  cases hv : data.lookup? "constants" with
  | none =>
    rw [entryField, hv]
    exact ⟨_, rfl⟩
  | some v =>
    rw [entryField, hv, Option.getD_some, Value.orElse]
    split
    next hpresent =>
      have hmap : v.isMap = true := Bool.not_eq_false _ ▸ fun hmap =>
        h (.constants hv hpresent hmap)
      exact ⟨_, if_pos hmap⟩
    next => exact ⟨_, rfl⟩

/-! ## Loops that stop -/

section

variable {α β : Type} {f : α → Job β} {xs ys : List α} {x : α}

/-- Where something has a property, something has it first. -/
theorem exists_first {p : α → Prop} (h : ∃ x ∈ xs, p x) :
    ∃ before x after, xs = before ++ x :: after ∧ (∀ y ∈ before, ¬p y) ∧ p x := by
  induction xs with
  | nil => simp at h
  | cons first rest ih =>
    by_cases hfirst : p first
    · exact ⟨[], first, rest, rfl, by simp, hfirst⟩
    · obtain ⟨x, hx, hp⟩ := h
      have hrest : ∃ x ∈ rest, p x :=
        ⟨x, (List.mem_cons.mp hx).resolve_left fun heq => hfirst (heq ▸ hp), hp⟩
      obtain ⟨before, x, after, rfl, hbefore, hx⟩ := ih hrest
      exact ⟨first :: before, x, after, rfl, List.forall_mem_cons.mpr ⟨hfirst, hbefore⟩, hx⟩

theorem run_mapM_ok (h : ∀ x ∈ xs, ∀ w, ∃ y w', (f x).run w = (.ok y, w')) (w : Work) :
    ∃ found w', (xs.mapM f).run w = (.ok found, w') := by
  induction xs generalizing w with
  | nil => exact ⟨[], w, rfl⟩
  | cons x xs ih =>
    obtain ⟨y, w₁, hfirst⟩ := h x (by simp) w
    obtain ⟨found, w', hrest⟩ := ih (fun x hx => h x (List.mem_cons_of_mem _ hx)) w₁
    rw [List.mapM_cons, Action.run_bind_ok hfirst, Action.run_bind_ok hrest]
    exact ⟨y :: found, w', rfl⟩

/-- A loop stops at the first element that is refused, when it has been through those before it. -/
theorem run_mapM_refused {found : List β} {fault : Fault} {w₁ w₂ : Work}
    (hbefore : (xs.mapM f).run w = (.ok found, w₁)) (h : (f x).run w₁ = (.error fault, w₂)) :
    ((xs ++ x :: ys).mapM f).run w = (.error fault, w₂) := by
  rw [List.mapM_append, Action.run_bind_ok hbefore, List.mapM_cons]
  exact Action.run_bind_error (Action.run_bind_error h)

end

/-! ## Records one by one -/

theorem patternOf_returns (constants : Constants) (source : String)
    (h : entry.lookup? "pattern" ≠ none) (w : Work) :
    ∃ pattern w', (patternOf constants entry source).run w = (.ok pattern, w') := by
  obtain ⟨v, hv⟩ := Option.ne_none_iff_exists'.mp h
  rw [patternOf, writtenPattern, hv]
  exact ⟨_, _, rfl⟩

theorem patternOf_refused (h : entry.lookup? "pattern" = none) (w : Work) :
    (patternOf constants entry source).run w =
      (.error (.manifest (.missingPattern source entry)), w) := by
  rw [patternOf, writtenPattern, h]
  rfl

theorem registerDefinition_returns (h : entry.lookup? "pattern" ≠ none) (w : Work) :
    ∃ d w', (registerDefinition constants source entry).run w = (.ok d, w') := by
  obtain ⟨pattern, w₁, hpattern⟩ := patternOf_returns constants source h w
  rw [registerDefinition, Action.run_bind_ok (Job.store_run w), Action.run_bind_ok hpattern]
  exact ⟨_, _, rfl⟩

/-- A definition without a pattern leaves everything as it was. -/
theorem registerDefinition_refused (h : entry.lookup? "pattern" = none) (w : Work) :
    (registerDefinition constants source entry).run w =
      (.error (.manifest (.missingPattern source entry)), w) := by
  rw [registerDefinition, Action.run_bind_ok (Job.store_run w)]
  exact Action.run_bind_error (patternOf_refused h w)

/-- The keyword of a transform is looked at first, which gives a warning at most. -/
theorem exists_registerTransform (constants : Constants) (source : String) (entry : Value)
    (w : Work) : ∃ (w₁ : Work) (x : Value → Transform), w₁.store = w.store ∧
      (registerTransform constants source entry).run w =
        (patternOf constants entry source >>= fun pattern =>
          Job.build (Build.register (x pattern))).run w₁ := by
  let keyword := ((entryField entry "keyword" .null).orElse (.text "Transform")).display
  let x (pattern : Value) : Transform := {
    id := recordId entry "step_transform" (w.store.catalog.count .transform)
    keyword
    pattern
    source := (entryField entry "source" (.text "")).display }
  rw [registerTransform]
  dsimp only
  split
  · refine ⟨_, x, ?_, (Action.run_bind_ok (Job.warn_run _ w)).trans
      (Action.run_bind_ok (Job.store_run _))⟩
    rfl
  · exact ⟨w, x, rfl, Action.run_bind_ok (Job.store_run w)⟩

theorem registerTransform_returns (h : entry.lookup? "pattern" ≠ none) (w : Work) :
    ∃ t w', (registerTransform constants source entry).run w = (.ok t, w') := by
  obtain ⟨w₁, x, -, hrun⟩ := exists_registerTransform constants source entry w
  obtain ⟨pattern, w₂, hpattern⟩ := patternOf_returns constants source h w₁
  rw [hrun, Action.run_bind_ok hpattern]
  exact ⟨_, _, rfl⟩

/-- A transform without a pattern leaves the store as it was. -/
theorem registerTransform_refused (constants : Constants) (source : String)
    (h : entry.lookup? "pattern" = none) (w : Work) :
    ∃ w', w'.store = w.store ∧ (registerTransform constants source entry).run w =
      (.error (.manifest (.missingPattern source entry)), w') := by
  obtain ⟨w₁, x, hstore, hrun⟩ := exists_registerTransform constants source entry w
  exact ⟨w₁, hstore, hrun.trans (Action.run_bind_error (patternOf_refused h w₁))⟩

/-! ## Manifests as a whole -/

/-- The definitions that are registered: those with an accepted keyword. -/
def accepted (stepKeywords entries : List Value) : List Value :=
  entries.filter fun entry => stepKeywords.any (·.isText (definitionKeyword entry))

/-- What remains to be done when the shape of a manifest is found in order. -/
def registerListed (constants : Constants) (data : Value) (stepKeywords : List Value)
    (entries : List Value) (source : String) :
    Job (List (Ref Definition) × List (Ref Transform)) := do
  let definitions ← (accepted stepKeywords entries).mapM (registerDefinition constants source)
  let entries ← check (records data transformsKey source)
  let transforms ← entries.mapM (registerTransform constants source)
  return (definitions, transforms)

theorem nonNull?_of_isMap (h : data.isMap = true) : data.nonNull?.isNone = false := by
  cases data <;> first | rfl | cases h

theorem register_of_shape (hmap : data.isMap = true)
    (hconstants : Manifest.constants data source = .ok constants)
    (hentries : records data definitionsKey source = .ok entries) :
    (register data stepKeywords source).run w =
      (registerListed constants data stepKeywords entries source).run w := by
  rw [register, if_neg (by simp [nonNull?_of_isMap hmap]), if_neg (by simp [hmap]), hconstants,
    hentries]
  rfl

/-- A fault of the shape leaves everything as it was. -/
theorem misshapen_run (h : Misshapen data) (stepKeywords : List Value) (source : String)
    (w : Work) :
    ∃ fault, (register data stepKeywords source).run w = (.error (.manifest fault), w) := by
  by_cases hnull : data.nonNull?.isNone = true
  · cases h with
    | notMapping hne => cases data <;> simp_all [Value.nonNull?]
    | constants hv => cases data <;> simp_all [Value.nonNull?, Value.lookup?]
    | definitions hunlisted =>
      obtain ⟨v, hv, -⟩ := hunlisted
      cases data <;> simp_all [Value.nonNull?, Value.lookup?]
  rw [register, if_neg hnull]
  by_cases hmap : data.isMap = true
  · rw [if_neg (by simp [hmap])]
    cases h with
    | notMapping _ hnot => simp [hmap] at hnot
    | constants hv hpresent hnot =>
      have hconstants : Manifest.constants data source = .error (.constantsNotMapping source) := by
        rw [Manifest.constants, entryField, hv, Option.getD_some, Value.orElse, if_pos hpresent,
          if_neg (by simp [hnot])]
      rw [hconstants]
      exact ⟨_, rfl⟩
    | definitions hunlisted =>
      obtain ⟨fault, hrecords⟩ := records_of_unlisted hunlisted source
      rw [hrecords]
      cases Manifest.constants data source with
      | ok constants => exact ⟨_, rfl⟩
      | error fault => exact ⟨_, rfl⟩
  · rw [if_pos (by simpa using hmap)]
    exact ⟨_, rfl⟩

theorem isMap_of_shape (h : ¬Misshapen data) : data = .null ∨ data.isMap = true := by
  by_cases hnull : data = .null
  · exact .inl hnull
  · exact .inr (by_contra fun hmap => h (.notMapping hnull (by simpa using hmap)))

/-- Without a fault of its shape a manifest comes to its definitions. -/
theorem exists_registerListed (h : ¬Misshapen data) (hmap : data.isMap = true)
    (stepKeywords : List Value) (source : String) (w : Work) : ∃ constants,
      Manifest.constants data source = .ok constants ∧
      (register data stepKeywords source).run w =
        (registerListed constants data stepKeywords (listed data definitionsKey) source).run w := by
  obtain ⟨constants, hconstants⟩ := exists_constants h source
  have hrecords := records_of_listed (fun hunlisted => h (.definitions hunlisted)) source
  exact ⟨constants, hconstants, register_of_shape hmap hconstants hrecords⟩

theorem pattern_of_mem_accepted (h : ∀ e ∈ entries, ¬Lacking stepKeywords e)
    (hmem : entry ∈ accepted stepKeywords entries) : entry.lookup? "pattern" ≠ none := by
  obtain ⟨hmem, haccepted⟩ := List.mem_filter.mp hmem
  exact fun hnone => h entry hmem ⟨haccepted, hnone⟩

/-- Definitions none of which lacks a pattern are all registered. -/
theorem run_definitions (constants : Constants) (source : String)
    (h : ∀ e ∈ entries, ¬Lacking stepKeywords e) (w : Work) : ∃ ds w',
      ((accepted stepKeywords entries).mapM (registerDefinition constants source)).run w =
        (.ok ds, w') :=
  run_mapM_ok (fun _ hmem => registerDefinition_returns (pattern_of_mem_accepted h hmem)) w

/-- Transforms all of which have patterns are all registered. -/
theorem run_transforms (constants : Constants) (source : String)
    (h : ∀ e ∈ entries, e.lookup? "pattern" ≠ none) (w : Work) : ∃ ts w',
      (entries.mapM (registerTransform constants source)).run w = (.ok ts, w') :=
  run_mapM_ok (fun e hmem => registerTransform_returns (h e hmem)) w

/-- What comes behind the definitions begins where they have ended. -/
theorem run_registerListed {ds : List (Ref Definition)} {w₁ : Work}
    (h : ((accepted stepKeywords entries).mapM (registerDefinition constants source)).run w =
      (.ok ds, w₁)) : (registerListed constants data stepKeywords entries source).run w =
      (check (records data transformsKey source) >>= fun entries =>
        entries.mapM (registerTransform constants source) >>= fun ts =>
          (pure (ds, ts) : Job (List (Ref Definition) × List (Ref Transform)))).run w₁ := by
  rw [registerListed, Action.run_bind_ok h]

theorem run_check_ok {α : Type} {result : Except ManifestFault α} {a : α} (h : result = .ok a)
    (w : Work) : (check result).run w = (.ok a, w) := by
  rw [h]
  rfl

theorem run_check_error {α : Type} {result : Except ManifestFault α} {fault : ManifestFault}
    (h : result = .error fault) (w : Work) :
    (check result).run w = (.error (.manifest fault), w) := by
  rw [h]
  rfl

/-- A manifest with transforms that all have patterns ends well behind its definitions. -/
theorem run_registerListed_ok {ds : List (Ref Definition)} {transforms : List Value} {w₁ : Work}
    (h : ((accepted stepKeywords entries).mapM (registerDefinition constants source)).run w =
      (.ok ds, w₁)) (hrecords : records data transformsKey source = .ok transforms)
    (hpatterns : ∀ e ∈ transforms, e.lookup? "pattern" ≠ none) : ∃ ts w',
      (registerListed constants data stepKeywords entries source).run w = (.ok (ds, ts), w') ∧
        (transforms.mapM (registerTransform constants source)).run w₁ = (.ok ts, w') := by
  obtain ⟨ts, w', hts⟩ := run_transforms constants source hpatterns w₁
  refine ⟨ts, w', ?_, hts⟩
  rw [run_registerListed h, Action.run_bind_ok (run_check_ok hrecords w₁), Action.run_bind_ok hts]
  rfl

/-- A manifest without a fault is not refused. -/
theorem register_returns (h : ¬Faulty stepKeywords data) (source : String) (w : Work) :
    ∃ result w', (register data stepKeywords source).run w = (.ok result, w') := by
  have hshape : ¬Misshapen data := fun hshape => h (.misshapen hshape)
  obtain rfl | hmap := isMap_of_shape hshape
  · exact ⟨([], []), w, rfl⟩
  obtain ⟨constants, -, hrun⟩ := exists_registerListed hshape hmap stepKeywords source w
  obtain ⟨ds, w₁, hds⟩ := run_definitions constants source
    (fun e hmem hlacks => h (.definition hmem hlacks)) w
  have hrecords := records_of_listed (fun hunlisted => h (.transforms hunlisted)) source
  obtain ⟨ts, w', hlisted, -⟩ := run_registerListed_ok hds hrecords
    fun e hmem hnone => h (.transform hmem hnone)
  exact ⟨(ds, ts), w', hrun.trans hlisted⟩

/-! ## Manifests that are cut -/

/-- A manifest with a fault that is not one of its shape can be cut before the first one. -/
theorem exists_cut (h : Faulty stepKeywords data) (hshape : ¬Misshapen data) :
    ∃ cut, CutBeforeFault stepKeywords data cut := by
  by_cases hlacking : ∃ e ∈ listed data definitionsKey, Lacking stepKeywords e
  · obtain ⟨before, entry, after, hlisted, hbefore, hentry⟩ := exists_first hlacking
    exact ⟨_, .definition hlisted hbefore hentry⟩
  have hdefinitions : ∀ e ∈ listed data definitionsKey, ¬Lacking stepKeywords e :=
    fun e hmem hlacks => hlacking ⟨e, hmem, hlacks⟩
  by_cases hunlisted : Unlisted data transformsKey
  · exact ⟨_, .transforms hdefinitions hunlisted⟩
  cases h with
  | misshapen h => exact absurd h hshape
  | definition hmem hlacks => exact absurd hlacks (hdefinitions _ hmem)
  | transforms h => exact absurd h hunlisted
  | @transform entry hmem hnone =>
    obtain ⟨before, entry, after, hlisted, hbefore, hentry⟩ :=
      exists_first (p := fun e : Value => e.lookup? "pattern" = none) ⟨entry, hmem, hnone⟩
    exact ⟨_, .transform hdefinitions hunlisted hlisted hbefore hentry⟩

theorem isMap_of_lookup? (h : ¬Misshapen data) (hkey : (data.lookup? key).isSome) :
    data.isMap = true := by
  obtain rfl | hmap := isMap_of_shape h
  · simp [Value.lookup?] at hkey
  · exact hmap

theorem accepted_append_cons (h : Lacking stepKeywords entry) :
    accepted stepKeywords (before ++ entry :: after) =
      accepted stepKeywords before ++ entry :: accepted stepKeywords after := by
  simp [accepted, h.1]

/-- With other transforms a manifest still comes to its definitions first. -/
theorem register_withRecords {ds : List (Ref Definition)} {transforms : List Value} {w₁ : Work}
    (hmap : data.isMap = true) (hconstants : Manifest.constants data source = .ok constants)
    (hentries : records data definitionsKey source = .ok entries)
    (hds : ((accepted stepKeywords entries).mapM (registerDefinition constants source)).run w =
      (.ok ds, w₁))
    (hrecords : records (withRecords transformsKey transforms data) transformsKey source =
      .ok transforms)
    (hpatterns : ∀ e ∈ transforms, e.lookup? "pattern" ≠ none) : ∃ ts w',
      (register (withRecords transformsKey transforms data) stepKeywords source).run w =
        (.ok (ds, ts), w') ∧
      (transforms.mapM (registerTransform constants source)).run w₁ = (.ok ts, w') := by
  obtain ⟨ts, w', hend, hts⟩ := run_registerListed_ok hds hrecords hpatterns
  refine ⟨ts, w', ?_, hts⟩
  rw [← hend]
  exact register_of_shape (isMap_withRecords hmap)
    ((constants_withRecords (by decide) source).trans hconstants)
    ((records_withRecords_of_ne (by decide) source).trans hentries)

/-- Up to the fault the manifest does what it does when it is cut there. -/
theorem CutBeforeFault.run {cut : Value} (hshape : ¬Misshapen data)
    (h : CutBeforeFault stepKeywords data cut) (source : String) (w : Work) :
    ∃ fault result w' w'',
      (register data stepKeywords source).run w = (.error (.manifest fault), w') ∧
      (register cut stepKeywords source).run w = (.ok result, w'') ∧ w'.store = w''.store := by
  have hlistable : ¬Unlisted data definitionsKey := fun h => hshape (.definitions h)
  have hentries := records_of_listed hlistable source
  cases h with
  | @definition before entry after hlisted hbefore hlacks =>
    have hentry : entry ∈ listed data definitionsKey := by simp [hlisted]
    have hmap := isMap_of_lookup? hshape (isMap_of_mem_listed hlistable hentry).2
    obtain ⟨constants, hconstants, hrun⟩ :=
      exists_registerListed hshape hmap stepKeywords source w
    obtain ⟨ds, w₁, hds⟩ := run_definitions constants source hbefore w
    have hstop : (register data stepKeywords source).run w =
        (.error (.manifest (.missingPattern source entry)), w₁) := by
      rw [hrun, hlisted, registerListed, accepted_append_cons hlacks]
      exact Action.run_bind_error (run_mapM_refused hds (registerDefinition_refused hlacks.2 w₁))
    -- the cut manifest lists the definitions before the fault, and no transforms
    obtain ⟨ts, w₂, hcut, hts⟩ := register_withRecords (isMap_withRecords hmap)
      ((constants_withRecords (by decide) source).trans hconstants)
      (records_withRecords hlistable (by simp [hlisted]) source) hds
      (records_withRecords_nil transformsKey _ source) (by simp)
    cases hts
    exact ⟨_, _, _, _, hstop, hcut, rfl⟩
  | transforms hdefinitions hunlisted =>
    have hmap : data.isMap = true := by
      obtain ⟨v, hv, -⟩ := hunlisted
      exact isMap_of_lookup? hshape (Option.isSome_of_eq_some hv)
    obtain ⟨constants, hconstants, hrun⟩ :=
      exists_registerListed hshape hmap stepKeywords source w
    obtain ⟨ds, w₁, hds⟩ := run_definitions constants source hdefinitions w
    obtain ⟨fault, hfault⟩ := records_of_unlisted hunlisted source
    have hstop : (register data stepKeywords source).run w = (.error (.manifest fault), w₁) := by
      rw [hrun, run_registerListed hds]
      exact Action.run_bind_error (run_check_error hfault w₁)
    obtain ⟨ts, w₂, hcut, hts⟩ := register_withRecords hmap hconstants hentries hds
      (records_withRecords_nil transformsKey _ source) (by simp)
    cases hts
    exact ⟨_, _, _, _, hstop, hcut, rfl⟩
  | @transform before entry after hdefinitions hlistable' hlisted hbefore hnone =>
    have hentry : entry ∈ listed data transformsKey := by simp [hlisted]
    have hmap := isMap_of_lookup? hshape (isMap_of_mem_listed hlistable' hentry).2
    obtain ⟨constants, hconstants, hrun⟩ :=
      exists_registerListed hshape hmap stepKeywords source w
    obtain ⟨ds, w₁, hds⟩ := run_definitions constants source hdefinitions w
    obtain ⟨ts, w₂, hcut, hts⟩ := register_withRecords hmap hconstants hentries hds
      (records_withRecords hlistable' (by simp [hlisted]) source) hbefore
    obtain ⟨w₃, hstore, hlast⟩ := registerTransform_refused constants source hnone w₂
    have hstop : (register data stepKeywords source).run w =
        (.error (.manifest (.missingPattern source entry)), w₃) := by
      rw [hrun, run_registerListed hds,
        Action.run_bind_ok (run_check_ok (records_of_listed hlistable' source) w₁), hlisted]
      exact Action.run_bind_error (run_mapM_refused hts hlast)
    exact ⟨_, _, _, _, hstop, hcut, hstore⟩

/-- A manifest is refused exactly when it is at fault.  A fault of its shape leaves everything as it
was, and every other fault leaves the store as the manifest does that is cut before the fault. -/
theorem register_up_to_fault (data : Value) (stepKeywords : List Value) (source : String)
    (w : Work) :
    ((∃ fault w', (register data stepKeywords source).run w = (.error (.manifest fault), w')) ↔
      Faulty stepKeywords data) ∧
    (¬Faulty stepKeywords data →
      ∃ result w', (register data stepKeywords source).run w = (.ok result, w')) ∧
    (Misshapen data →
      ∃ fault, (register data stepKeywords source).run w = (.error (.manifest fault), w)) ∧
    (Faulty stepKeywords data → ¬Misshapen data → ∃ cut, CutBeforeFault stepKeywords data cut) ∧
    (¬Misshapen data → ∀ cut, CutBeforeFault stepKeywords data cut →
      ∃ fault result w' w'',
        (register data stepKeywords source).run w = (.error (.manifest fault), w') ∧
        (register cut stepKeywords source).run w = (.ok result, w'') ∧
        w'.store = w''.store) := by
  refine ⟨⟨fun hrefused => ?_, fun hfaulty => ?_⟩, fun h => register_returns h source w,
    fun h => misshapen_run h stepKeywords source w, exists_cut,
    fun hshape _ h => h.run hshape source w⟩
  · by_contra hfaultless
    obtain ⟨fault, w', hrefused⟩ := hrefused
    obtain ⟨result, w'', hreturned⟩ := register_returns hfaultless source w
    cases hrefused.symm.trans hreturned
  · by_cases hshape : Misshapen data
    · obtain ⟨fault, hrun⟩ := misshapen_run hshape stepKeywords source w
      exact ⟨fault, w, hrun⟩
    · obtain ⟨cut, hcut⟩ := exists_cut hfaulty hshape
      obtain ⟨fault, -, w', -, hrun, -⟩ := hcut.run hshape source w
      exact ⟨fault, w', hrun⟩

/-- Of two definitions the second lacks its pattern, and the first one stays. -/
theorem register_up_to_fault_second (w : Work) :
    ∃ fault result w' w'',
      (register (.map [(.text "step_definitions", .list [
          .map [(.text "keyword", .text "Given"), (.text "pattern", .text "a cup")],
          .map [(.text "keyword", .text "Given")]])]) [.text "Given"] "tea.yaml").run w =
        (.error (.manifest fault), w') ∧
      (register (.map [(.text "step_definitions", .list [
          .map [(.text "keyword", .text "Given"), (.text "pattern", .text "a cup")]])])
        [.text "Given"] "tea.yaml").run w = (.ok result, w'') ∧
      w'.store = w''.store := by
  refine (register_up_to_fault _ _ _ w).2.2.2.2 ?_ _ ?_
  · intro hshape
    cases hshape with
    | notMapping _ hmap => cases hmap
    | constants h => cases h
    | definitions h =>
      obtain ⟨v, hv, -, hentries⟩ := h
      cases hv
      obtain ⟨entry, hmem, hmap⟩ := hentries _ rfl
      simp at hmem
      obtain rfl | rfl := hmem <;> cases hmap
  · exact @CutBeforeFault.definition _ _ [_] _ [] rfl (by decide) (by decide)

end StepTrace.Manifest
