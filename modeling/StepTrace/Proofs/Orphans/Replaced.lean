import StepTrace.Proofs.Registry.Builds
import StepTrace.Proofs.Registry.Parts

/-!
# What replaced backgrounds leave

A feature has one background, under one identifier: a later one is registered in the place of the
earlier one, and its steps in the place of those with the same numbers.  Of an earlier background
that had more steps the further ones stay registered, though nothing holds them any more.

`Attributed r counts s₀ s` says that these are the only parts that have come in since `s₀` and are
not parts of the feature: if the backgrounds had `counts` steps, in order, then the feature has the
last of them, each other part that has come in is a step of the background of a number below one of
the counts (`LeftOver`), and under each such number something is registered.  Every child that comes
in keeps this (`Attributed.joined`, `Attributed.backed`), so it holds of a document that has been
built (`Build.Assembled.attributed`).
-/

namespace StepTrace

/-- The numbers of steps of the background nodes of a document, in order. -/
def Value.backgroundCounts (content : Value) : List Nat :=
  content.backgrounds.map fun node => (node.itemsOf "steps").length

/-- The identifier of the step after the first `n` of the background of a file. -/
def backgroundStepId (file : String) (n : Nat) : String :=
  part (part file backgroundLabel) (stepLabel (n + 1))

namespace Store

/-- A step of a background of the file, of a number below one of the counts. -/
structure LeftOver (s : Store) (file : String) (counts : List Nat) (x : Ref Step) : Prop where
  id : ∃ n, (s.get x).id = backgroundStepId file n ∧ ∃ count ∈ counts, n < count
  scenarioId : (s.get x).scenarioId = part file backgroundLabel

theorem LeftOver.mono {s s' : Store} {file : String} {counts counts' : List Nat} {x : Ref Step}
    (h : s.LeftOver file counts x) (hget : s'.get x = s.get x) (hcounts : counts ⊆ counts') :
    s'.LeftOver file counts' x := by
  obtain ⟨⟨n, hid, count, hcount, hn⟩, hscenario⟩ := h
  exact ⟨⟨n, hget ▸ hid, count, hcounts hcount, hn⟩, hget ▸ hscenario⟩

/-- All parts that have come in since `s₀` belong to the feature, or are steps of backgrounds with
the given numbers of steps, of which the feature has the last. -/
structure Attributed (r : Ref Feature) (counts : List Nat) (s₀ s : Store) : Prop where
  labelled : s.Labelled
  placed : s.FeaturePlaced r (s.get r).id
  background : ((s.get r).background.map fun b => (s.get b).steps.length) = counts.getLast?
  admits : Admits (fun e => e ∈ s.featureParts r ∨
    ∃ x, e = .step x ∧ s.LeftOver (s.get r).id counts x) s₀ s
  registered : ∀ count ∈ counts, ∀ n < count, backgroundStepId (s.get r).id n ∈ s.catalog.ids

end Store

namespace Build

open Store

variable {r : Ref Feature} {counts : List Nat} {s₀ s s' : Store}

/-- The containers of a feature keep their parts while children come in. -/
theorem FeatureBuilt.containerParts (hbuilt : FeatureBuilt r s s')
    (hplaced : s.FeaturePlaced r (s.get r).id) {c : Container} (hc : c ∈ (s.get r).scenarios) :
    s'.containerParts c = s.containerParts c := by
  obtain ⟨i, hi⟩ := hplaced.containers.exists_of_mem hc
  exact containerParts_grows hi hbuilt.grows (sparesParts_feature r)

/-- What is registered among the steps of the background stays registered while children come in. -/
theorem FeatureBuilt.mem_ids (hbuilt : FeatureBuilt r s s') {n : Nat}
    (h : backgroundStepId (s.get r).id n ∈ s.catalog.ids) :
    backgroundStepId (s'.get r).id n ∈ s'.catalog.ids := by
  rw [hbuilt.id_eq]
  exact hbuilt.grows.catalog.mem_ids h

end Build

namespace Store.Attributed

open Build

variable {r : Ref Feature} {counts : List Nat} {s₀ s s' : Store}

/-- A feature without parts. -/
theorem of_empty (hlabelled : s.Labelled) (hplaced : s.FeaturePlaced r (s.get r).id)
    (hbackground : (s.get r).background = none) (hadmits : Admits (fun _ => False) s₀ s) :
    Attributed r [] s₀ s where
  labelled := hlabelled
  placed := hplaced
  background := by rw [hbackground]; rfl
  admits := hadmits.mono fun _ => False.elim
  registered := nofun

/-- What was left over before still is. -/
theorem leftOver_grows {file : String} {counts' : List Nat} {region : String → Entry → Prop}
    (hgrows : Grows region (· = .feature r) s s') (hcounts : counts ⊆ counts') {x : Ref Step}
    (hx : s.Has (.step x)) (h : s.LeftOver file counts x) : s'.LeftOver file counts' x :=
  h.mono (hgrows.get_step hx nofun) hcounts

/-- Whatever comes in as a part of the feature, if it keeps its background. -/
theorem keeps (h : Attributed r counts s₀ s) (hbuilt : FeatureBuilt r s s')
    (hbackground : (s'.get r).background = (s.get r).background)
    (hscenarios : (s.get r).scenarios ⊆ (s'.get r).scenarios)
    (hadmits : Admits (· ∈ s'.featureParts r) s s') : Attributed r counts s₀ s' := by
  have hother : ∀ b : Ref Scenario, Entry.scenario b ≠ .feature r := by
    rintro b ⟨⟩
  have hmem : s.featureParts r ⊆ s'.featureParts r := by
    intro e he
    rw [mem_featureParts, hbackground]
    refine (mem_featureParts.mp he).imp_right (Or.imp ?_ ?_)
    · rintro ⟨b, hb, he⟩
      have hplaced := h.placed.background b hb
      rw [← scenarioParts_grows hplaced.placed.has hbuilt.grows (hother b)] at he
      exact ⟨b, hb, he⟩
    · rintro ⟨c, hc, he⟩
      rw [← hbuilt.containerParts h.placed hc] at he
      exact ⟨c, hscenarios hc, he⟩
  refine ⟨h.labelled.grows hbuilt.grows, hbuilt.placed_self, ?_, ?_, fun count hcount n hn =>
    hbuilt.mem_ids (h.registered count hcount n hn)⟩
  · rw [hbackground, ← h.background]
    refine Option.map_congr fun b hb => ?_
    rw [hbuilt.grows.get_scenario (h.placed.background b hb).placed.has (hother b)]
  · intro id e he hkind
    rcases hadmits he hkind with hold | hnew
    · refine (h.admits hold hkind).imp_right (Or.imp (fun he => hmem he) ?_)
      rintro ⟨x, rfl, hx⟩
      rw [hbuilt.id_eq]
      exact ⟨x, rfl, leftOver_grows hbuilt.grows (List.Subset.refl _) (h.labelled hold).has hx⟩
    · exact Or.inr (Or.inl hnew)

/-- **A container that comes in with its parts.** -/
theorem joined (h : Attributed r counts s₀ s) (hbuilt : FeatureBuilt r s s') {c : Container}
    (hc : Joined r c s s') : Attributed r counts s₀ s' := by
  refine h.keeps hbuilt hc.background ?_ (hc.admits.mono fun e he => ?_)
  · rw [hc.scenarios]
    exact fun _ => List.mem_append_left _
  · refine mem_featureParts.mpr (.inr (.inr ⟨c, ?_, he⟩))
    rw [hc.scenarios]
    exact List.mem_append_right _ (List.mem_singleton_self c)

/-- **A background that comes in with its steps**, in the place of an earlier one: of that only the
steps are left, if anything. -/
theorem backed (h : Attributed r counts s₀ s) (hbuilt : FeatureBuilt r s s') {node : Value}
    {b : Ref Scenario} (hb : Backed r node b s s') :
    Attributed r (counts ++ [(node.itemsOf "steps").length]) s₀ s' := by
  have hlabelled := h.labelled.grows hbuilt.grows
  have hnew := hbuilt.placed.background b hb.background
  have hself : ∀ e ∈ s'.scenarioParts b, e ∈ s'.featureParts r := fun e he =>
    mem_featureParts.mpr (.inr (.inl ⟨b, hb.background, he⟩))
  constructor
  case labelled => exact hlabelled
  case placed => exact hbuilt.placed_self
  case background =>
    -- the background of a feature is the one that came in last
    rw [hb.background, Option.map_some, hb.steps, List.getLast?_append_of_ne_nil _ (by simp)]
    rfl
  case admits =>
    intro id e he hkind
    rw [hbuilt.id_eq]
    rcases hb.admits he hkind with hold | hmem
    · refine (h.admits hold hkind).imp_right ?_
      rintro (hpart | ⟨x, rfl, hx⟩)
      · rcases mem_featureParts.mp hpart with rfl | ⟨b₀, hb₀, hpart⟩ | ⟨c, hc, hpart⟩
        · exact hkind.elim
        · -- a part of the background that was replaced
          have hplaced := h.placed.background b₀ hb₀
          rcases mem_scenarioParts.mp hpart with rfl | ⟨x, hx, rfl⟩
          · rw [← (h.labelled hold).idOf, hplaced.placed.idOf, hnew.placed.find?] at he
            cases he
            exact Or.inl (hself _ (List.mem_cons_self ..))
          · obtain ⟨n, hn⟩ := List.mem_iff_getElem?.mp hx
            obtain ⟨hstep, hscenario⟩ := hplaced.steps n x hn
            have hlast : (s.get b₀).steps.length ∈ counts := by
              have hbackground := h.background
              rw [hb₀, Option.map_some] at hbackground
              exact List.mem_of_getLast? hbackground.symm
            refine Or.inr ⟨x, rfl, leftOver_grows hbuilt.grows
              (fun _ => List.mem_append_left _) hstep.has ⟨⟨n, hstep.idOf, _, hlast, ?_⟩, hscenario⟩⟩
            exact (List.getElem?_eq_some_iff.mp hn).1
        · rw [← hbuilt.containerParts h.placed hc] at hpart
          exact .inl (mem_featureParts.mpr (.inr (.inr ⟨c, hb.scenarios ▸ hc, hpart⟩)))
      · exact Or.inr ⟨x, rfl, leftOver_grows hbuilt.grows (fun _ => List.mem_append_left _)
          (h.labelled hold).has hx⟩
    · exact Or.inr (Or.inl (hself e hmem))
  case registered =>
    intro count hcount n hn
    rcases List.mem_append.mp hcount with hcount | hcount
    · exact hbuilt.mem_ids (h.registered count hcount n hn)
    · rw [List.mem_singleton.mp hcount, ← hb.steps] at hn
      have hstep := hnew.steps n _ (List.getElem?_eq_getElem hn)
      rw [hbuilt.id_eq]
      exact Catalog.mem_ids_iff.mpr ⟨_, hstep.1.find?⟩

/-- **Children one after the other.** -/
theorem enlarged {nodes : List Value} (h : Attributed r counts s₀ s) (hall : Enlarged r s nodes s') :
    Attributed r (counts ++ nodes.map fun node => (node.itemsOf "steps").length) s₀ s' := by
  induction hall with
  | refl => rwa [List.map_nil, List.append_nil]
  | joined _ hbuilt hc ih => exact ih.joined hbuilt hc
  | backed _ hbuilt hb ih =>
      rw [List.map_append, ← List.append_assoc]
      exact ih.backed hbuilt hb

/-- What comes in afterwards are no parts, and the feature stays as it is. -/
theorem grows_nowhere (h : Attributed r counts s₀ s) (hgrows : Grows nowhere untouched s s') :
    Attributed r counts s₀ s' := by
  have hsame : s'.get r = s.get r := hgrows.get_feature h.placed.placed.has id
  exact h.keeps ((FeatureBuilt.refl h.placed).grows_nowhere hgrows) (by rw [hsame])
    (by rw [hsame]; exact List.Subset.refl _) (.nowhere hgrows)

end Store.Attributed

namespace Build

open Store

variable {r : Ref Feature} {s s₁ s₂ s' : Store} {nodes : List Value}

/-- **All that has come in with a document belongs to its feature or was left by a background.** -/
theorem Assembled.attributed (h : Assembled r nodes s s₁ s₂ s') (hlabelled : s.Labelled) :
    Attributed r (nodes.map fun node => (node.itemsOf "steps").length) s s' := by
  have hbegun : Admits (fun _ => False) s s₁ := .of_grows h.begun fun _ e he hkind => by
    rw [he] at hkind
    exact hkind
  have hempty := Attributed.of_empty (hlabelled.grows h.begun) h.placed h.background hbegun
  exact (hempty.enlarged h.children).grows_nowhere h.finished

end Build

end StepTrace
