import StepTrace.Proofs.Build.Placed

/-!
# Parts, and what comes in with them

`Store.featureParts` lists everything that can be reached from a feature: itself, its background,
its containers, and their steps, examples and rows.

What is registered need not be reached from anything.  `Admits given s s'` says that of the kinds of
parts nothing has been registered between the stores but what is given; a builder that comes to its
end admits nothing but what it leaves as a part of its owner (`Fills`).
-/

namespace StepTrace

namespace Store

/-! ## Parts -/

/-- A scenario and its steps. -/
def scenarioParts (s : Store) (r : Ref Scenario) : List Entry :=
  .scenario r :: (s.get r).steps.map .step

/-- An outline with its templates, its examples, and its rows with their steps. -/
def outlineParts (s : Store) (r : Ref Outline) : List Entry :=
  .outline r :: ((s.get r).steps.map .step ++
    ((s.get r).examples.map .examples ++ (s.get r).scenarios.flatMap s.scenarioParts))

def containerParts (s : Store) : Container → List Entry
  | .scenario r => s.scenarioParts r
  | .outline r => s.outlineParts r

/-- A feature and all that it holds. -/
def featureParts (s : Store) (r : Ref Feature) : List Entry :=
  .feature r :: ((s.get r).background.toList.flatMap s.scenarioParts ++
    (s.get r).scenarios.flatMap s.containerParts)

variable {s s' s'' : Store} {region : String → Entry → Prop} {hole : Entry → Prop}

theorem mem_scenarioParts {x : Ref Scenario} {e : Entry} :
    e ∈ s.scenarioParts x ↔ e = .scenario x ∨ ∃ y ∈ (s.get x).steps, e = .step y := by
  simp [scenarioParts, eq_comm]

theorem mem_outlineParts {o : Ref Outline} {e : Entry} :
    e ∈ s.outlineParts o ↔ e = .outline o ∨ (∃ y ∈ (s.get o).steps, e = .step y) ∨
      (∃ t ∈ (s.get o).examples, e = .examples t) ∨
        ∃ x ∈ (s.get o).scenarios, e ∈ s.scenarioParts x := by
  simp [outlineParts, eq_comm]

theorem mem_featureParts {r : Ref Feature} {e : Entry} :
    e ∈ s.featureParts r ↔ e = .feature r ∨
      (∃ b, (s.get r).background = some b ∧ e ∈ s.scenarioParts b) ∨
        ∃ c ∈ (s.get r).scenarios, e ∈ s.containerParts c := by
  simp [featureParts]

theorem kind_of_mem_scenarioParts {x : Ref Scenario} {e : Entry} (he : e ∈ s.scenarioParts x) :
    e.kind.IsPart := by
  rcases mem_scenarioParts.mp he with rfl | ⟨_, -, rfl⟩ <;> trivial

theorem kind_of_mem_featureParts {r : Ref Feature} {e : Entry} (he : e ∈ s.featureParts r) :
    e.kind = .feature ∨ e.kind.IsPart := by
  rcases mem_featureParts.mp he with rfl | ⟨b, -, he⟩ | ⟨c, -, he⟩
  · exact Or.inl rfl
  · exact Or.inr (kind_of_mem_scenarioParts he)
  · right
    cases c with
    | scenario x => exact kind_of_mem_scenarioParts he
    | outline o =>
        rcases mem_outlineParts.mp he with rfl | ⟨_, -, rfl⟩ | ⟨_, -, rfl⟩ | ⟨x, -, he⟩
        · trivial
        · trivial
        · trivial
        · exact kind_of_mem_scenarioParts he

theorem kind_of_mem_parts {rs : List (Ref Feature)} {e : Entry} (he : e ∈ rs.flatMap s.featureParts) :
    e.kind = .feature ∨ e.kind.IsPart := by
  obtain ⟨r, -, he⟩ := List.mem_flatMap.mp he
  exact kind_of_mem_featureParts he

/-- The parts depend on the records of the parts, those of steps excepted. -/
theorem scenarioParts_congr {x : Ref Scenario}
    (h : s'.content (.scenario x) = s.content (.scenario x)) :
    s'.scenarioParts x = s.scenarioParts x := by
  have hsame : s'.get x = s.get x := Content.scenario.inj h
  rw [scenarioParts, hsame, scenarioParts]

theorem outlineParts_congr {o : Ref Outline}
    (h : ∀ e ∈ s.outlineParts o, e.kind ≠ .step → s'.content e = s.content e) :
    s'.outlineParts o = s.outlineParts o := by
  have hsame : s'.get o = s.get o := Content.outline.inj (h _ (List.mem_cons_self ..) nofun)
  have hrows : (s.get o).scenarios.flatMap s'.scenarioParts =
      (s.get o).scenarios.flatMap s.scenarioParts := by
    refine List.flatMap_congr fun x hx => scenarioParts_congr (h _ ?_ nofun)
    exact mem_outlineParts.mpr (.inr (.inr (.inr ⟨x, hx, List.mem_cons_self ..⟩)))
  rw [outlineParts, hsame, hrows, outlineParts]

theorem featureParts_congr {r : Ref Feature}
    (h : ∀ e ∈ s.featureParts r, e.kind ≠ .step → s'.content e = s.content e) :
    s'.featureParts r = s.featureParts r := by
  have hsame : s'.get r = s.get r := Content.feature.inj (h _ (List.mem_cons_self ..) nofun)
  have hbackground : (s.get r).background.toList.flatMap s'.scenarioParts =
      (s.get r).background.toList.flatMap s.scenarioParts := by
    refine List.flatMap_congr fun b hb => scenarioParts_congr (h _ ?_ nofun)
    exact mem_featureParts.mpr (.inr (.inl ⟨b, Option.mem_toList.mp hb, List.mem_cons_self ..⟩))
  have hcontainers : (s.get r).scenarios.flatMap s'.containerParts =
      (s.get r).scenarios.flatMap s.containerParts := by
    refine List.flatMap_congr fun c hc => ?_
    have hparts : ∀ e ∈ s.containerParts c, e.kind ≠ .step → s'.content e = s.content e :=
      fun e he => h e (mem_featureParts.mpr (.inr (.inr ⟨c, hc, he⟩)))
    cases c with
    | scenario x => exact scenarioParts_congr (hparts _ (List.mem_cons_self ..) nofun)
    | outline o => exact outlineParts_congr hparts
  rw [featureParts, hsame, hbackground, hcontainers, featureParts]

theorem scenarioParts_grows {x : Ref Scenario} (hx : s.Has (.scenario x))
    (hgrows : Grows region hole s s') (hout : ¬ hole (.scenario x)) :
    s'.scenarioParts x = s.scenarioParts x :=
  scenarioParts_congr (hgrows.content_eq hx hout nofun nofun)

theorem rowParts_grows {feature outline : String} {rows : List (Ref Scenario)}
    (h : s.RowsPlaced feature outline rows) (hgrows : Grows region hole s s')
    (hout : ∀ x, ¬ hole (.scenario x)) :
    rows.flatMap s'.scenarioParts = rows.flatMap s.scenarioParts := by
  refine List.flatMap_congr fun x hx => ?_
  obtain ⟨i, hi⟩ := h.exists_of_mem hx
  exact scenarioParts_grows hi.placed.has hgrows (hout x)

/-- The parts of a container that is placed stay its parts while others come in. -/
theorem containerParts_grows {feature id : String} {c : Container}
    (h : s.ContainerPlaced feature c id) (hgrows : Grows region hole s s')
    (hhole : SparesParts hole) : s'.containerParts c = s.containerParts c := by
  cases c with
  | scenario x => exact scenarioParts_grows (ScenarioPlaced.placed h).has hgrows (hhole _ trivial)
  | outline o =>
      have hsame := hgrows.get_outline (OutlinePlaced.placed h).has (hhole _ trivial)
      rw [containerParts, outlineParts, hsame, containerParts, outlineParts,
        rowParts_grows (OutlinePlaced.rows h) hgrows fun _ => hhole _ trivial]

/-! ## Admission -/

/-- The parts that are registered in the second store and were not in the first are among the
given. -/
def Admits (given : Entry → Prop) (s s' : Store) : Prop :=
  ∀ ⦃id e⦄, s'.catalog.find? id = some e → e.kind.IsPart →
    s.catalog.find? id = some e ∨ given e

namespace Admits

variable {given given' : Entry → Prop}

theorem refl (s : Store) : Admits given s s :=
  fun _ _ he _ => Or.inl he

theorem mono (h : Admits given s s') (hgiven : ∀ e, given e → given' e) : Admits given' s s' :=
  fun _ _ he hkind => (h he hkind).imp_right (hgiven _)

theorem trans (h : Admits given s s') (h' : Admits given s' s'') : Admits given s s'' := by
  intro id e he hkind
  rcases h' he hkind with he | hgiven
  · exact h he hkind
  · exact Or.inr hgiven

/-- What grows where there are no parts admits none. -/
theorem of_grows (h : Grows region hole s s') (hregion : ∀ id e, region id e → ¬ e.kind.IsPart) :
    Admits given s s' := by
  intro id e he hkind
  rcases h.catalog.find?_cases he with he | hin | ⟨-, htag, -⟩
  · exact Or.inl he
  · exact absurd hkind (hregion id e hin)
  · rw [htag] at hkind
    exact hkind.elim

theorem nowhere (h : Grows nowhere hole s s') : Admits given s s' :=
  of_grows h fun _ _ => False.elim

variable {α : Type} [Record α]

theorem enter (s : Store) {r : Ref α} (hgiven : given (Record.entry r)) :
    Admits given s (s.enter r) := by
  intro id e he _
  rw [catalog_enter, Catalog.find?_insert] at he
  split at he
  · cases he
    exact Or.inr hgiven
  · exact Or.inl he

theorem register [HeapRecord α] (s : Store) {x : α}
    (hgiven : given (Record.entry (s.register x).2)) : Admits given s (s.register x).1 := by
  intro id e he _
  rw [catalog_register, Catalog.find?_insert] at he
  split at he
  · cases he
    exact Or.inr hgiven
  · exact Or.inl he

theorem modify [HeapRecord α] (s : Store) (r : Ref α) (f : α → α) : Admits given s (s.modify r f) := by
  intro id e he _
  rw [catalog_modify] at he
  exact Or.inl he

end Admits

/-- What belonged to an owner still does, and so does what has come in. -/
structure Fills (parts : Store → List Entry) (s s' : Store) : Prop where
  kept : parts s ⊆ parts s'
  admits : Admits (· ∈ parts s') s s'

namespace Fills

variable {parts : Store → List Entry}

theorem refl (s : Store) : Fills parts s s :=
  ⟨fun _ => id, .refl s⟩

theorem trans (h : Fills parts s s') (h' : Fills parts s' s'') : Fills parts s s'' :=
  ⟨fun _ he => h'.kept (h.kept he), (h.admits.mono fun _ he => h'.kept he).trans h'.admits⟩

end Fills

end Store

end StepTrace
