import StepTrace.Proofs.Returns.Receptive

/-!
# No document that was read is refused

A build of a document that was read comes to its end on every registry that is receptive, and leaves
one that is (`feature_returns`): looks into the document are not refused, and nothing in the
registry is in the way.  There is one lemma for each kind of node.

As everywhere in the project the rules follow the way in which actions are put together.
-/

namespace StepTrace

open Store HeapRecord Gherkin

/-- The read-me file, if there is one, could be read. -/
def ReadMe.Readable (readMe : ReadMe) : Prop :=
  ∀ result ∈ readMe, ∃ text, result = .ok text

namespace Build

variable {α β : Type}

/-- On every store with `I` the action is not refused, has a result with `Q`, and leaves a store
with `I`. -/
def Returns (I : Store → Prop) (x : Build α) (Q : α → Prop) : Prop :=
  ∀ s, I s → ∃ a s', x.run s = (.ok a, s') ∧ I s' ∧ Q a

/-- Nothing is to be known of the result. -/
abbrev Passes (I : Store → Prop) (x : Build α) : Prop :=
  Returns I x fun _ => True

namespace Returns

variable {I : Store → Prop} {x : Build α} {f : α → Build β} {Q : α → Prop} {R : β → Prop}

theorem pure {a : α} (h : Q a) : Returns I (Pure.pure a) Q :=
  fun s hs => ⟨a, s, rfl, hs, h⟩

theorem bind (hx : Returns I x Q) (hf : ∀ a, Q a → Returns I (f a) R) : Returns I (x >>= f) R := by
  intro s hs
  obtain ⟨a, s₁, hrun, hs₁, ha⟩ := hx s hs
  obtain ⟨b, s₂, hrun', hs₂, hb⟩ := hf a ha s₁ hs₁
  exact ⟨b, s₂, (Action.run_bind_ok hrun).trans hrun', hs₂, hb⟩

theorem get_bind {f : Store → Build β} (hf : ∀ s, I s → Returns I (f s) R) :
    Returns I (get >>= f) R :=
  fun s hs => hf s hs s hs

theorem check_bind {result : Except Fault α} {f : α → Build β} (h : Yields result Q)
    (hf : ∀ a, Q a → Returns I (f a) R) : Returns I (check result >>= f) R := by
  obtain ⟨a, rfl, ha⟩ := h
  exact hf a ha

/-- What is read at once is known. -/
theorem check_bind_of_eq {result : Except Fault α} {a : α} {f : α → Build β} (h : result = .ok a)
    (hf : Returns I (f a) R) : Returns I (check result >>= f) R := by
  rw [h]
  exact hf

theorem some?_bind {fault : Fault} {found : Option α} {a : α} {f : α → Build β}
    (h : found = some a) (hf : Returns I (f a) R) : Returns I (some? fault found >>= f) R := by
  rw [h]
  exact hf

theorem forM {xs : List α} {f : α → Build Unit} (hf : ∀ x ∈ xs, Passes I (f x)) :
    Passes I (xs.forM f) := by
  induction xs with
  | nil => exact pure trivial
  | cons x xs ih =>
      refine bind (hf x (List.mem_cons_self ..)) fun _ _ => ?_
      exact ih fun x hx => hf x (List.mem_cons_of_mem _ hx)

theorem modify {g : Store → Store} (h : ∀ s, I s → I (g s)) : Passes I (modify g : Build PUnit) :=
  fun s hs => ⟨⟨⟩, g s, rfl, h s hs, trivial⟩

section

variable {γ : Type} [Record γ]

theorem read_bind {r : Ref γ} {f : γ → Build β} (hf : ∀ s, I s → Returns I (f (s.get r)) R) :
    Returns I (read r >>= f) R :=
  fun s hs => hf s hs s hs

theorem change {r : Ref γ} {f : γ → γ} (h : ∀ s, I s → I (s.modify r f)) :
    Passes I (Build.change r f) :=
  fun s hs => ⟨⟨⟩, s.modify r f, rfl, h s hs, trivial⟩

end

end Returns

variable {old : Store} {named : List (Ref Feature × String)} {id : String}

section

variable {γ : Type} [Record γ] [HeapRecord γ]

theorem register_returns {x : γ} (h : ∀ s : Store, s.Receptive old named →
    (s.register x).1.Receptive old named) :
    Returns (Receptive · old named) (register x) fun r => ¬ old.Has (Record.entry r) :=
  fun s hs => ⟨(s.register x).2, (s.register x).1, rfl, h s hs,
    hs.not_has_of_not_has (not_has_register_self s x)⟩

theorem registerPart_returns {x : γ} {label : String} (hid : Record.id x = part id label)
    (huntagged : Untagged id) (hchildren : (wrap x).children = .empty)
    (htemplates : (wrap x).templates = []) :
    Returns (Receptive · old named) (register x) fun r => ¬ old.Has (Record.entry r) :=
  register_returns fun _ hs => hs.register_part hid huntagged hchildren htemplates

theorem change_passes {r : Ref γ} {f : γ → γ} (hid : ∀ x, Record.id (f x) = Record.id x)
    (hchildren : ∀ x, (wrap (f x)).children = (wrap x).children)
    (htemplates : ∀ x, (wrap (f x)).templates = (wrap x).templates)
    (hstep : ∀ x : γ, (wrap (f x)).step? = (wrap x).step?) :
    Passes (Receptive · old named) (change r f) :=
  .change fun _ hs => hs.modify_same r hid hchildren htemplates hstep

end

/-! ## Namespaces -/

/-- The entry is a namespace that has come in. -/
def IsNewSpace (old : Store) (e : Entry) : Prop :=
  e.kind = .nameSpace ∧ ¬ old.Has e

theorem registerSpace_returns {x : Namespace} (huntagged : Untagged x.id)
    (hchildren : x.children = .empty) :
    Returns (Receptive · old named) (register x) fun r => ¬ old.Has (.nameSpace r) :=
  register_returns fun _ hs => Receptive.register hs (x := x) huntagged (fun _ => rfl) hchildren rfl

theorem rootNamespace_returns :
    Returns (Receptive · old named) rootNamespace (IsNewSpace old) := by
  have hroot : Untagged rootNamespaceId := by
    unfold Untagged IsTag
    decide
  unfold rootNamespace
  refine .get_bind fun s hs => ?_
  split
  · rename_i e he
    exact .pure (hs.root he)
  · exact .bind (registerSpace_returns hroot rfl) fun r hr => .pure ⟨rfl, hr⟩

theorem childNamespace_returns {e : Entry} (he : IsNewSpace old e) (name : String) :
    Returns (Receptive · old named) (childNamespace e name) (IsNewSpace old) := by
  obtain ⟨hkind, hnew⟩ := he
  cases e <;> cases hkind
  rename_i r
  unfold childNamespace
  refine .read_bind fun s hs => ?_
  have huntagged : Untagged (s.get r).id := hs.untagged_idOf (e := .nameSpace r) hnew nofun
  split
  · rename_i child hchild
    refine .pure ⟨rfl, ?_⟩
    by_cases hr : s.Has (.nameSpace r)
    · exact hs.children hr hnew hchild
    · rw [get_of_not_has hr] at hchild
      cases hchild
  · refine .bind (registerSpace_returns (huntagged.child name) rfl) fun child hchild => ?_
    refine .bind (.change fun s hs => ?_) fun _ _ => .pure ⟨rfl, hchild⟩
    refine hs.modify r (fun _ => rfl) (fun {other n} hn => ?_) (fun hx => Or.inl hx) fun _ => rfl
    change ((s.get r).children.insert name child).find? other = some n at hn
    by_cases hother : other = name
    · rw [hother, OrderedMap.find?_insert_self] at hn
      cases hn
      exact Or.inr hchild
    · rw [OrderedMap.find?_insert_of_ne child hother] at hn
      exact Or.inl hn

theorem descend_returns {e : Entry} (he : IsNewSpace old e) (names : List String) :
    Returns (Receptive · old named) (descend e names) (IsNewSpace old) := by
  induction names generalizing e with
  | nil => exact .pure he
  | cons name names ih => exact .bind (childNamespace_returns he name) fun child hchild => ih hchild

theorem namespaceOf_returns (file : Path) {readMe : ReadMe} (hreadMe : readMe.Readable) :
    Returns (Receptive · old named) (namespaceOf file readMe) (IsNewSpace old) := by
  unfold namespaceOf
  refine .bind rootNamespace_returns fun root hroot => ?_
  refine .bind (descend_returns hroot _) fun e he => ?_
  have hkind := he.1
  cases e <;> cases hkind
  rename_i r
  refine .get_bind fun s _ => .some?_bind rfl ?_
  split
  · cases readMe with
    | none => exact .pure he
    | some result =>
        obtain ⟨text, rfl⟩ := hreadMe result rfl
        refine .check_bind_of_eq rfl (.bind (.modify fun s hs => ?_) fun _ _ => .pure he)
        exact hs.modify_same r (fun _ => rfl) (fun _ => rfl) (fun _ => rfl) fun _ => rfl
  · exact .pure he

/-! ## Tags -/

theorem tagOf_returns (token : String) :
    Returns (Receptive · old named) (tagOf (.text token)) fun e => e.kind = .tag := by
  unfold tagOf
  refine .get_bind fun s hs => ?_
  split
  · rename_i e he
    exact .pure (hs.tag he (isTag_tagId _))
  · exact .bind (register_returns fun s hs => hs.register_tag token) fun _ _ => .pure rfl

/-- The entry is that of a record that can declare tags. -/
def Declares (e : Entry) : Prop :=
  ∀ s : Store, (s.tagsOf? e).isSome ∧ (s.locationOf? e).isSome

theorem siteLine_passes {e : Entry} (he : Declares e) (line : Value) :
    Passes (Receptive · old named) (siteLine (some e) line) := by
  unfold siteLine
  split
  · exact .pure trivial
  · refine .get_bind fun s _ => ?_
    obtain ⟨location, hlocation⟩ := Option.isSome_iff_exists.mp (he s).2
    exact .some?_bind hlocation (.pure trivial)

theorem declareTag_passes (file token : String) {e : Entry} (he : Declares e) (line : Value) :
    Passes (Receptive · old named) (declareTag file (.text token) (some e) line) := by
  rw [declareTag_eq]
  refine .bind (tagOf_returns token) fun found hfound => ?_
  cases found <;> cases hfound
  refine .bind (siteLine_passes he line) fun line _ => ?_
  refine .bind (change_passes (fun _ => rfl) (fun _ => rfl) (fun _ => rfl) fun _ => rfl) fun _ _ => ?_
  refine .some?_bind rfl (.get_bind fun s _ => ?_)
  obtain ⟨tags, htags⟩ := Option.isSome_iff_exists.mp (he s).1
  exact .some?_bind htags (.bind (.modify fun s hs => hs.attach _ e tags) fun _ _ => .pure trivial)

/-- **Tags that were read can be declared.** -/
theorem declareAll_passes (file : String) (tags : List TagNode) {e : Entry} (he : Declares e) :
    Passes (Receptive · old named)
      (declareAll file (.list (tags.map TagNode.toValue)) (some e)) := by
  have hnodes : ((Value.list (tags.map TagNode.toValue)).orElse (.list [])).elements =
      .ok (tags.map TagNode.toValue) := by
    cases tags <;> rfl
  refine .check_bind_of_eq hnodes (.forM fun node hnode => ?_)
  obtain ⟨tag, -, rfl⟩ := List.mem_map.mp hnode
  refine .check_bind_of_eq rfl (.check_bind_of_eq rfl (.check_bind_of_eq rfl ?_))
  exact .bind (declareTag_passes file tag.name he _) fun _ _ => .pure trivial

theorem countScenarios_passes (count : Int) (known seen tags : List (Ref Tag)) :
    Passes (Receptive · old named) (countScenarios count (some known) seen tags) := by
  induction tags generalizing seen with
  | nil => exact .pure trivial
  | cons tag tags ih =>
      unfold countScenarios
      split
      · exact ih seen
      · refine .some?_bind rfl ?_
        split
        · exact ih seen
        · refine .bind (change_passes (fun _ => rfl) (fun _ => rfl) (fun _ => rfl) fun _ => rfl) ?_
          exact fun _ _ => ih (tag :: seen)

/-! ## Steps and rows -/

theorem step_passes (site : Site) {c : Container} (hc : ¬ old.Has c.entry) (n : StepNode) :
    Passes (Receptive · old named) (step site c n.toValue) := by
  unfold step
  refine .get_bind fun s hs => ?_
  have huntagged : Untagged (containerId s c) :=
    containerId_eq s c ▸ hs.untagged_idOf hc (by cases c <;> nofun)
  obtain ⟨x, hx⟩ : ∃ x, stepOf n.toValue
      (containerId s c ++ ":step_" ++ toString ((containerSteps s c).length + 1)) (containerId s c)
      site.file = .ok x := ⟨_, stepOf_toValue n _ _ _⟩
  have hid : x.id = part (containerId s c) (stepLabel ((containerSteps s c).length + 1)) :=
    (stepOf_ok hx).1.trans (part_step _ _)
  refine .check_bind_of_eq hx ?_
  rw [show (register x >>= fun r => addStep c r) = (modify fun s : Store =>
    pushStep (s.register x).1 c (s.register x).2 : Build Unit) by
      simp only [addStep_eq]
      rfl]
  exact .modify fun s hs => hs.pushStep c hid huntagged (written_of_stepOf hx)

theorem steps_passes (site : Site) {c : Container} (hc : ¬ old.Has c.entry) {node : Value}
    {steps : List StepNode}
    (hsteps : node.field "steps" = .ok (.list (steps.map StepNode.toValue))) :
    Passes (Receptive · old named) (Build.steps site node c) := by
  refine .check_bind_of_eq (elementsOf_list hsteps) (.forM fun node hnode => ?_)
  obtain ⟨n, -, rfl⟩ := List.mem_map.mp hnode
  exact step_passes site hc n

theorem row_passes {o : Ref Outline} (ho : ¬ old.Has (.outline o)) (headers : List Value)
    {cells : List Value} (hcells : ∀ cell ∈ cells, cell.Textual) :
    Passes (Receptive · old named) (row o headers cells) := by
  intro s hs
  have htemplates : ∀ x ∈ (s.get o).steps.map fun r => s.get r, x.Written := by
    intro x hx
    obtain ⟨r, hr, rfl⟩ := List.mem_map.mp hx
    by_cases hhas : s.Has (.outline o)
    · exact (hs.templates hhas ho r hr).2
    · rw [get_of_not_has hhas] at hr
      cases hr
  obtain ⟨⟨x, xs⟩, hrow, -⟩ := (s.get o).explodeRow_yields headers htemplates hcells
  refine ⟨(), s.addRow o x xs, ?_, hs.addRow ho hrow, trivial⟩
  rw [run_row, hrow]

/-! ## The parts of a feature -/

variable {site : Site}

theorem Returns.unlessExcluded {I : Store → Prop} {node : Value} (tags : List TagNode) {a : α}
    {x : Build α} {Q : α → Prop}
    (htags : node.field "tags" = .ok (.list (tags.map TagNode.toValue)))
    (ha : Q a) (hx : Returns I x Q) : Returns I (do
      if ← check (do declaresExcluded site.excluded (← node.field "tags")) then return a
      x) Q := by
  rw [htags]
  refine .check_bind (declaresExcluded_yields site.excluded tags) fun found _ => ?_
  split
  · exact .pure ha
  · exact hx

theorem mapM_rowCells (rows : List (List String)) :
    (rows.map rowValue).mapM rowCells = .ok (rows.map (·.map .text)) :=
  mapM_map_eq rowCells rowCells_rowValue rows

theorem fillTable_passes {o : Ref Outline} (ho : ¬ old.Has (.outline o)) (table : Ref Examples)
    {node : Value} {rows : List (List String)}
    (hrows : node.field "tableBody" = .ok (.list (rows.map rowValue))) (header : Value)
    (headers : List Value) :
    Passes (Receptive · old named) (fillTable o table node header headers) := by
  have hbody : (do (← node.elementsOf "tableBody").mapM rowCells) =
      .ok (rows.map (·.map Value.text)) := by
    rw [elementsOf_list hrows]
    exact mapM_rowCells rows
  unfold fillTable
  refine .bind (change_passes (fun _ => rfl) (fun _ => rfl) (fun _ => rfl) fun _ => rfl) fun _ _ => ?_
  refine .check_bind_of_eq hbody ?_
  refine .bind (change_passes (fun _ => rfl) (fun _ => rfl) (fun _ => rfl) fun _ => rfl) fun _ _ => ?_
  refine .bind (change_passes (fun _ => rfl) (fun _ => rfl) (fun _ => rfl) fun _ => rfl) fun _ _ => ?_
  refine .forM fun cells hcells => row_passes ho headers fun cell hcell => ?_
  obtain ⟨row, -, rfl⟩ := List.mem_map.mp hcells
  obtain ⟨text, -, rfl⟩ := List.mem_map.mp hcell
  exact Value.textual text

/-- The cells of the header are read, if there is one. -/
theorem headerCells_yields (e : ExamplesNode) : ∃ header, e.toValue.field "tableHeader" = .ok header ∧
    Yields (headerCells header) fun _ => True := by
  cases hrows : e.rows with
  | nil =>
      refine ⟨.null, ?_, .pure trivial⟩
      simp only [ExamplesNode.toValue, hrows]
      rfl
  | cons row rows =>
      refine ⟨rowValue row, ?_, ?_⟩
      · simp only [ExamplesNode.toValue, hrows]
        rfl
      · exact ⟨_, rowCells_rowValue row, trivial⟩

theorem ExamplesNode.field_tableBody (e : ExamplesNode) :
    e.toValue.field "tableBody" = .ok (.list (e.rows.tail.map rowValue)) := by
  cases hrows : e.rows <;> simp only [ExamplesNode.toValue, hrows] <;> rfl

theorem examples_passes {o : Ref Outline} (ho : ¬ old.Has (.outline o)) (e : ExamplesNode) :
    Passes (Receptive · old named) (examples site o e.toValue) := by
  obtain ⟨header, hheader, hcells⟩ := headerCells_yields e
  rw [examples_eq]
  refine .unlessExcluded e.tags rfl trivial ?_
  refine .read_bind fun s hs => .check_bind_of_eq rfl (.check_bind_of_eq rfl ?_)
  have huntagged : Untagged (s.get o).id := hs.untagged_idOf (e := .outline o) ho nofun
  refine .check_bind_of_eq rfl (.check_bind_of_eq rfl ?_)
  let label := examplesLabel (s.get o).examples.length
  have hid : (s.get o).id ++ ":" ++ label = part (s.get o).id label := rfl
  refine .bind (registerPart_returns hid huntagged rfl rfl) fun r _ => ?_
  refine .check_bind_of_eq rfl (.bind (declareAll_passes _ e.tags fun _ => ⟨rfl, rfl⟩) fun _ _ => ?_)
  refine .check_bind_of_eq hheader (.check_bind hcells fun headers _ => ?_)
  exact fillTable_passes ho r (ExamplesNode.field_tableBody e) header headers

variable {whole : Ref Feature}

theorem background_passes (hnew : ¬ old.Has (.feature whole)) (title : Title)
    (nodes : List StepNode) : Passes (Receptive · old named)
      (background site (some whole) (.ofFields (title.fields ++ [stepField nodes]))) := by
  unfold background
  refine .some?_bind rfl (.read_bind fun s hs => ?_)
  have huntagged : Untagged (s.get whole).id := hs.untagged_idOf (e := .feature whole) hnew nofun
  refine .check_bind_of_eq rfl (.check_bind_of_eq rfl (.check_bind_of_eq rfl ?_))
  refine .check_bind_of_eq rfl ?_
  refine .bind (registerPart_returns (part_background _) huntagged rfl rfl) fun r hr => ?_
  refine .bind (change_passes (fun _ => rfl) (fun _ => rfl) (fun _ => rfl) fun _ => rfl) fun _ _ => ?_
  exact steps_passes site (c := .scenario r) hr rfl

section

variable (title : Title) (tags : List TagNode) (nodes : List StepNode)
variable (tables : List ExamplesNode)

/-- The node of a scenario. -/
def scenarioNode : Value :=
  .ofFields (title.fields ++ [tagField tags, stepField nodes,
    ("examples", .list (tables.map ExamplesNode.toValue))])

theorem plainScenario_passes (hnew : ¬ old.Has (.feature whole)) :
    Passes (Receptive · old named)
      (plainScenario site whole (scenarioNode title tags nodes tables)) := by
  unfold plainScenario
  refine .read_bind fun s hs => ?_
  have huntagged : Untagged (s.get whole).id := hs.untagged_idOf (e := .feature whole) hnew nofun
  refine .check_bind_of_eq rfl (.check_bind_of_eq rfl (.check_bind_of_eq rfl ?_))
  refine .check_bind_of_eq rfl ?_
  refine .bind (registerPart_returns (part_scenario _ _) huntagged rfl rfl) fun r hr => ?_
  refine .check_bind_of_eq rfl (.bind (declareAll_passes _ tags fun _ => ⟨rfl, rfl⟩) fun _ _ => ?_)
  refine .bind (change_passes (fun _ => rfl) (fun _ => rfl) (fun _ => rfl) fun _ => rfl) fun _ _ => ?_
  refine .bind (steps_passes site (c := .scenario r) hr rfl) fun _ _ => ?_
  refine .bind (change_passes (fun _ => rfl) (fun _ => rfl) (fun _ => rfl) fun _ => rfl) fun _ _ => ?_
  exact .read_bind fun _ _ => .read_bind fun _ _ => countScenarios_passes _ _ _ _

theorem outline_passes (hnew : ¬ old.Has (.feature whole)) :
    Passes (Receptive · old named) (outline site whole (scenarioNode title tags nodes tables)) := by
  have htables : (scenarioNode title tags nodes tables).elementsOf "examples" =
      .ok (tables.map ExamplesNode.toValue) := elementsOf_list rfl
  unfold outline
  refine .read_bind fun s hs => ?_
  have huntagged : Untagged (s.get whole).id := hs.untagged_idOf (e := .feature whole) hnew nofun
  refine .check_bind_of_eq rfl (.check_bind_of_eq rfl (.check_bind_of_eq rfl ?_))
  refine .check_bind_of_eq rfl ?_
  refine .bind (registerPart_returns (part_scenario _ _) huntagged rfl rfl) fun r hr => ?_
  refine .check_bind_of_eq rfl (.bind (declareAll_passes _ tags fun _ => ⟨rfl, rfl⟩) fun _ _ => ?_)
  refine .bind (steps_passes site (c := .outline r) hr rfl) fun _ _ => ?_
  refine .check_bind_of_eq htables (.bind (.forM fun node hnode => ?_) fun _ _ => ?_)
  · obtain ⟨e, -, rfl⟩ := List.mem_map.mp hnode
    exact examples_passes hr e
  · refine .read_bind fun _ _ => ?_
    refine .bind (change_passes (fun _ => rfl) (fun _ => rfl) (fun _ => rfl) fun _ => rfl) fun _ _ => ?_
    exact .read_bind fun _ _ => .read_bind fun _ _ => countScenarios_passes _ _ _ _

theorem scenario_passes (hnew : ¬ old.Has (.feature whole)) :
    Passes (Receptive · old named)
      (scenario site (some whole) (scenarioNode title tags nodes tables)) := by
  unfold scenario
  refine .unlessExcluded tags rfl trivial (.check_bind_of_eq rfl ?_)
  split
  · exact .some?_bind rfl (outline_passes title tags nodes tables hnew)
  · exact .some?_bind rfl (plainScenario_passes title tags nodes tables hnew)

end

/-! ## Documents -/

theorem ruleChild_passes (hnew : ¬ old.Has (.feature whole)) (n : SectionNode) :
    Passes (Receptive · old named) (ruleChild site (some whole) n.toValue) := by
  cases n with
  | background title nodes => exact .check_bind_of_eq rfl (background_passes hnew title nodes)
  | scenario title tags nodes tables =>
      exact .check_bind_of_eq rfl (.check_bind_of_eq rfl
        (scenario_passes title tags nodes tables hnew))

theorem section_passes (hnew : ¬ old.Has (.feature whole)) (n : SectionNode) :
    Passes (Receptive · old named) (child site (some whole) n.toValue) := by
  cases n with
  | background title nodes => exact .check_bind_of_eq rfl (background_passes hnew title nodes)
  | scenario title tags nodes tables =>
      exact .check_bind_of_eq rfl (.check_bind_of_eq rfl
        (scenario_passes title tags nodes tables hnew))

theorem rule_passes (hnew : ¬ old.Has (.feature whole)) (n : RuleNode) :
    Passes (Receptive · old named) (child site (some whole) n.toValue) := by
  refine .check_bind_of_eq rfl (.check_bind_of_eq rfl (.check_bind_of_eq rfl ?_))
  refine .check_bind_of_eq (elementsOf_list rfl) (.forM fun node hnode => ?_)
  obtain ⟨inner, -, rfl⟩ := List.mem_map.mp hnode
  exact ruleChild_passes hnew inner

theorem place_passes {space : Entry} (hspace : site.nameSpace = space)
    (hkind : space.kind = .nameSpace) (whole : Ref Feature) :
    Passes (Receptive · old named) (place site whole) := by
  cases space <;> cases hkind
  unfold place
  rw [hspace]
  refine .read_bind fun _ _ => .read_bind fun _ _ => ?_
  split
  · exact change_passes (fun _ => rfl) (fun _ => rfl) (fun _ => rfl) fun _ => rfl
  · exact .pure trivial

/-- What is done with a feature that has come in. -/
theorem fillFeature_returns (hnew : ¬ old.Has (.feature whole))
    (hspace : site.nameSpace.kind = .nameSpace) (f : FeatureNode) :
    Returns (Receptive · old named) (fillFeature site f.toValue whole) (· = some whole) := by
  have hnodes : f.toValue.elementsOf "children" = .ok (f.sections.map SectionNode.toValue ++
      f.rules.map RuleNode.toValue) := elementsOf_list rfl
  refine .bind (place_passes rfl hspace whole) fun _ _ => ?_
  refine .check_bind_of_eq rfl (.bind (declareAll_passes _ f.tags fun _ => ⟨rfl, rfl⟩) fun _ _ => ?_)
  refine .check_bind_of_eq hnodes (.bind (.forM fun node hnode => ?_) fun _ _ => ?_)
  · rcases List.mem_append.mp hnode with hnode | hnode
    · obtain ⟨n, -, rfl⟩ := List.mem_map.mp hnode
      exact section_passes hnew n
    · obtain ⟨n, -, rfl⟩ := List.mem_map.mp hnode
      exact rule_passes hnew n
  · refine .read_bind fun _ _ => .bind (.forM fun tag _ => ?_) fun _ _ => .pure rfl
    exact change_passes (fun _ => rfl) (fun _ => rfl) (fun _ => rfl) fun _ => rfl

/-- **A document that was read is built, or gives no feature.**  A feature is known by its file. -/
theorem document_returns (site : Site) (d : Document) (hending : FeatureEnding site.file)
    (huntagged : Untagged site.file) (hspace : site.nameSpace.kind = .nameSpace) {s : Store}
    (hs : s.Receptive old named) : ∃ result s', (document site d.toValue).run s = (.ok result, s') ∧
      s'.Receptive old (result.toList.map (·, site.file) ++ named) := by
  cases hfeature : d.feature with
  | none =>
      refine ⟨none, s, ?_, hs⟩
      simp only [document, Document.toValue, hfeature]
      rfl
  | some f =>
      have hnode : d.toValue.field "feature" = .ok f.toValue := by
        simp only [Document.toValue, hfeature]
        rfl
      -- What comes before the feature only reads the document, so it yields whatever the store is.
      obtain ⟨excluded, hexcluded, -⟩ := declaresExcluded_yields site.excluded f.tags
      obtain ⟨comments, hcomments, -⟩ := commentsOf_yields d
      let x : Feature := {
        id := site.file
        name := featureName site.file
        keyword := .text f.title.keyword
        title := (Value.text f.title.name).orElse (.text "")
        location := ⟨site.file, f.title.line⟩
        description := (Value.text f.title.descriptionText).orElse (.text "")
        comments
        namespaceId := s.idOf site.nameSpace }
      have hrun : (document site d.toValue).run s = (if excluded = true then pure none else do
          fillFeature site f.toValue (← register x) : Build (Option (Ref Feature))).run s := by
        have hcheck : (do declaresExcluded site.excluded (← f.toValue.field "tags") :
            Except Fault Bool) = .ok excluded := hexcluded
        unfold document
        rw [hnode, hcomments, show check (.ok f.toValue) = (pure f.toValue : Build Value) from rfl,
          pure_bind, hcheck]
        cases excluded <;> rfl
      rw [hrun]
      cases excluded with
      | true => exact ⟨none, s, rfl, hs⟩
      | false =>
          have hregister : (s.register x).1.Receptive old named := hs.register
            (x := x) huntagged (fun heq => absurd heq (hending.ne_root (.refl _))) rfl rfl
          have hnew : ¬ old.Has (.feature (s.register x).2) :=
            hs.not_has_of_not_has (not_has_register_self s x)
          have hnamed := hregister.name (has_register_self s x)
          rw [get_register_self] at hnamed
          obtain ⟨result, s', hrest, hs', rfl⟩ := fillFeature_returns hnew hspace f _ hnamed
          exact ⟨_, s', hrest, hs'⟩

theorem feature_returns (d : Document) {file : Path} (hending : FeatureEnding file.toString)
    (huntagged : Untagged file.toString) (excluded : List String) {readMe : ReadMe}
    (hreadMe : readMe.Readable) {s : Store} (hs : s.Receptive old named) :
    ∃ result s', (feature file d.toValue excluded readMe).run s = (.ok result, s') ∧
      s'.Receptive old (result.toList.map (·, file.toString) ++ named) := by
  obtain ⟨e, s₁, hspace, hs₁, hkind, -⟩ := namespaceOf_returns file hreadMe s hs
  let inner : Site := ⟨file.toString, excluded.map stripSigil, e⟩
  have hsite : (Build.site file excluded readMe).run s = (.ok inner, s₁) := by
    unfold Build.site
    rw [Action.run_bind_ok hspace]
    rfl
  obtain ⟨result, s', hrun, hs'⟩ := document_returns inner d hending huntagged hkind hs₁
  refine ⟨result, s', ?_, hs'⟩
  unfold feature
  rw [Action.run_bind_ok hsite, hrun]

end Build

end StepTrace
