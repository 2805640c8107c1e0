import StepTrace.Project.Batch
import StepTrace.Proofs.Action
import StepTrace.Proofs.Twins.Alike

/-!
# Builds that go the same way

A build on one of two twins follows a build on the other if it has the same outcome and leaves twins
again, with the records that both have made paired (`Follows`).  Nothing is said where the build to be
followed is refused by a fault that ends the whole batch.

As everywhere in the project the rules follow the way in which actions are put together.  The terms on
which the twins are compared have to survive what builds do to tags, to namespaces and to the catalog
(`Terms.Lawful`).
-/

namespace StepTrace

open Store HeapRecord

/-- The record is part of a document. -/
def Content.IsPart : Content → Prop
  | feature _ | scenario _ | outline _ | examples _ | step _ => True
  | _ => False

theorem Content.IsPart.ne_tag {c : Content} (h : c.IsPart) (x : Tag) : c ≠ .tag x := by
  rintro rfl
  exact h

namespace Build

/-- `x` goes the way of `y`: on twins it has the same result and leaves twins, unless `y` is refused
by a fault that is not a matter of the document. -/
def Follows {α β : Type} (τ : Terms) (ρ : Pairing) (R : Pairing → α → β → Prop) (x : Build α)
    (y : Build β) : Prop :=
  ∀ s t, Twins τ ρ s t →
    (∀ b t', y.run t = (.ok b, t') →
      ∃ a s' σ, x.run s = (.ok a, s') ∧ ρ ≤ σ ∧ Twins τ σ s' t' ∧ R σ a b) ∧
    ∀ fault t', y.run t = (.error fault, t') → Batch.isLocal fault →
      ∃ s', x.run s = (.error fault, s')

/-- The results are references to records that stand for each other. -/
def SameEntry (σ : Pairing) (e e' : Entry) : Prop :=
  σ e e'

/-- The results are references to records that stand for each other. -/
def SameRef {α : Type} [Record α] (σ : Pairing) (r r' : Ref α) : Prop :=
  σ (Record.entry r) (Record.entry r')

/-- Nothing is to be known of the results. -/
def NoResult {α β : Type} (_ : Pairing) (_ : α) (_ : β) : Prop :=
  True

end Build

/-- The names with one more, which they hold once. -/
def joinName (names : List String) (name : String) : List String :=
  if name ∈ names then names else names ++ [name]

/-- The terms survive what builds do. -/
structure Terms.Lawful (τ : Terms) : Prop where
  file_part : ∀ {id}, τ.file id → τ.part id
  not_tag : ∀ {id}, τ.part id → ¬ IsTag id
  part : ∀ {id label}, τ.part id → IsLabel label → τ.part (StepTrace.part id label)
  tag_id : ∀ {x y}, τ.tag x y → x.id = y.id
  addSite : ∀ {x y} site, τ.tag x y →
    τ.tag { x with sites := x.sites ++ [site] } { y with sites := y.sites ++ [site] }
  giveOwner : ∀ {x y id}, τ.tag x y → τ.part id →
    τ.tag { x with owners := joinName x.owners id } { y with owners := joinName y.owners id }
  addCount : ∀ {x y} n, τ.tag x y → τ.tag { x with totalScenarios := x.totalScenarios + n }
    { y with totalScenarios := y.totalScenarios + n }
  nameSpace_id : ∀ {ρ x y}, τ.nameSpace ρ x y → x.id = y.id
  nameSpace_mono : ∀ {ρ σ x y}, ρ ≤ σ → τ.nameSpace ρ x y → τ.nameSpace σ x y
  listFeature : ∀ {ρ x y id}, τ.nameSpace ρ x y → τ.file id →
    τ.nameSpace ρ { x with featureIds := joinName x.featureIds id }
      { y with featureIds := joinName y.featureIds id }
  catalog_add : ∀ {α : Type} [Record α] [HeapRecord α] {ρ σ s t} (x y : α), Twins τ ρ s t → ρ ≤ σ →
    τ.catalog σ (s.add x).1 (t.add y).1
  catalog_enter : ∀ {α : Type} [Record α] [HeapRecord α] {ρ s t} {r r' : Ref α}, Twins τ ρ s t →
    ρ (Record.entry r) (Record.entry r') → Record.id (s.get r) = Record.id (t.get r') →
    τ.part (Record.id (s.get r)) → τ.catalog ρ (s.enter r) (t.enter r')
  catalog_modify : ∀ {α : Type} [Record α] [HeapRecord α] {ρ s t} {r r' : Ref α} (f g : α → α),
    Twins τ ρ s t → ρ (Record.entry r) (Record.entry r') →
    τ.catalog ρ (s.modify r f) (t.modify r' g)

/-- On these terms tags are found alike as well. -/
structure Terms.Complete (τ : Terms) : Prop extends τ.Lawful where
  tagOf : ∀ ρ token, Build.Follows τ ρ Build.SameEntry (Build.tagOf token) (Build.tagOf token)

section

variable {τ : Terms} (hτ : τ.Lawful) {ρ σ : Pairing} {s t : Store}
include hτ

/-! ## Records that are alike -/

namespace Content.Alike

omit hτ in
/-- It is enough that namespaces stay alike. -/
theorem imp {c c' : Content} (hle : ρ.LeParts σ)
    (hspace : ∀ x y, c = .nameSpace x → τ.nameSpace ρ x y → τ.nameSpace σ x y)
    (h : c.Alike τ ρ c') : c.Alike τ σ c' := by
  cases h with
  | nameSpace h => exact .nameSpace (hspace _ _ rfl h)
  | feature hid h => exact .feature hid (h.mono hle)
  | scenario hid h => exact .scenario hid (h.mono hle)
  | outline hid h => exact .outline hid (h.mono hle)
  | examples hid h => exact .examples hid (h.mono hle)
  | step hid h => exact .step hid (h.mono hle)
  | tag h => exact .tag h
  | definition h hlinks => exact .definition h hlinks
  | transform h hlinks => exact .transform h hlinks

theorem mono {c c' : Content} (hle : ρ ≤ σ) (h : c.Alike τ ρ c') : c.Alike τ σ c' :=
  h.imp (Pairing.leParts_of_le hle) fun _ _ _ => hτ.nameSpace_mono hle

theorem id_eq {c c' : Content} (h : c.Alike τ ρ c') : c.id = c'.id := by
  cases h with
  | nameSpace h => exact hτ.nameSpace_id h
  | feature _ h => exact (congrArg Feature.id h.bare :)
  | scenario _ h => exact (congrArg Scenario.id h.bare :)
  | outline _ h => exact (congrArg Outline.id h.bare :)
  | examples _ h => exact (congrArg Examples.id h.bare :)
  | step _ h => exact (congrArg Step.id h.bare :)
  | tag h => exact hτ.tag_id h
  | definition h => exact (congrArg Definition.id h :)
  | transform h => exact (congrArg Transform.id h :)

theorem part {c c' : Content} (h : c.Alike τ ρ c') (hpart : c.IsPart) : τ.part c.id := by
  cases h with
  | feature hid => exact hτ.file_part hid
  | scenario hid | outline hid | examples hid | step hid => exact hid
  | nameSpace | tag | definition | transform => exact hpart.elim

end Content.Alike

/-! ## Twins stay twins -/

namespace Twins

variable {α : Type} [Record α] [HeapRecord α] {r r' : Ref α}

omit hτ in
theorem alike (h : Twins τ ρ s t) (hr : ρ (Record.entry r) (Record.entry r')) :
    (wrap (s.get r)).Alike τ ρ (wrap (t.get r')) := by
  rw [← content_entry, ← content_entry]
  exact h.content hr

theorem idOf_eq (h : Twins τ ρ s t) {e e' : Entry} (he : ρ e e') : s.idOf e = t.idOf e' := by
  rw [Store.idOf_eq, Store.idOf_eq]
  exact (h.content he).id_eq hτ

theorem modify (h : Twins τ ρ s t) (hr : ρ (Record.entry r) (Record.entry r')) {f g : α → α}
    (hfg : (wrap (s.get r)).Alike τ ρ (wrap (t.get r')) →
      (wrap (f (s.get r))).Alike τ ρ (wrap (g (t.get r')))) :
    Twins τ ρ (s.modify r f) (t.modify r' g) where
  biUnique := h.biUnique
  has he := ⟨(has_modify s r f _).mpr (h.has he).1, (has_modify t r' g _).mpr (h.has he).2⟩
  content := by
    intro e e' he
    by_cases heq : e = Record.entry r
    · subst heq
      obtain rfl := h.biUnique.2 he hr
      rw [content_modify_self s r f (h.has hr).1, content_modify_self t r' g (h.has hr).2]
      exact hfg (h.alike hr)
    · have hne : e' ≠ Record.entry r' := by
        rintro rfl
        exact heq (h.biUnique.1 he hr)
      rw [content_modify_of_ne s r f heq, content_modify_of_ne t r' g hne]
      exact h.content he
  tags := by
    rw [catalog_modify, catalog_modify]
    exact h.tags
  catalog := hτ.catalog_modify f g h hr

theorem add (h : Twins τ ρ s t) {x y : α} (hxy : (wrap x).Alike τ ρ (wrap y))
    (hother : ∀ tag, wrap x ≠ .tag tag) :
    Twins τ (ρ.and (Record.entry (s.add x).2) (Record.entry (t.add y).2)) (s.add x).1
      (t.add y).1 where
  biUnique := Pairing.biUnique_and h.biUnique
    (fun _ he => not_has_add_self s x (h.has he).1) fun _ he => not_has_add_self t y (h.has he).2
  has := by
    rintro e e' (he | ⟨rfl, rfl⟩)
    · exact ⟨(has_add_iff s x e).mpr (.inl (h.has he).1), (has_add_iff t y e').mpr (.inl (h.has he).2)⟩
    · exact ⟨has_add_self s x, has_add_self t y⟩
  content := by
    rintro e e' (he | ⟨rfl, rfl⟩)
    · rw [content_add_of_has x (h.has he).1, content_add_of_has y (h.has he).2]
      exact (h.content he).mono hτ (ρ.le_and _ _)
    · rw [content_add_self, content_add_self]
      exact hxy.mono hτ (ρ.le_and _ _)
  tags := by
    rintro a b (hab | ⟨ha, -⟩)
    · rw [catalog_add, catalog_add]
      exact h.tags hab
    · -- what is added is not a tag
      have hcontent := content_add_self s x
      rw [← ha] at hcontent
      exact absurd hcontent.symm (hother _)
  catalog := hτ.catalog_add x y h (ρ.le_and _ _)

theorem enter_of (h : Twins τ ρ s t) (hr : ρ (Record.entry r) (Record.entry r'))
    (hfree : ¬ IsTag (Record.id (s.get r))) (hcatalog : τ.catalog ρ (s.enter r) (t.enter r')) :
    Twins τ ρ (s.enter r) (t.enter r') := by
  have hid : Record.id (s.get r) = Record.id (t.get r') := by
    rw [← id_wrap, ← id_wrap]
    exact (h.alike hr).id_eq hτ
  refine ⟨⟨h.biUnique, fun he => ?_, fun he => ?_, hcatalog⟩, fun hab => ?_⟩
  · exact ⟨(has_enter s r _).mpr (h.has he).1, (has_enter t r' _).mpr (h.has he).2⟩
  · rw [content_enter, content_enter]
    exact h.content he
  · obtain ⟨id, htag, ha, hb⟩ := h.tags hab
    have hne : id ≠ Record.id (s.get r) := by
      rintro rfl
      exact hfree htag
    refine ⟨id, htag, ?_, ?_⟩
    · rw [catalog_enter, Catalog.find?_insert_of_ne _ hne, ha]
    · rw [catalog_enter, Catalog.find?_insert_of_ne _ (hid ▸ hne), hb]

theorem enter (h : Twins τ ρ s t) (hr : ρ (Record.entry r) (Record.entry r'))
    (hpart : (wrap (s.get r)).IsPart) : Twins τ ρ (s.enter r) (t.enter r') := by
  have hid : Record.id (s.get r) = Record.id (t.get r') := by
    rw [← id_wrap, ← id_wrap]
    exact (h.alike hr).id_eq hτ
  have hown : τ.part (Record.id (s.get r)) := by
    rw [← id_wrap]
    exact (h.alike hr).part hτ hpart
  exact h.enter_of hτ hr (hτ.not_tag hown) (hτ.catalog_enter h hr hid hown)

/-- A tag comes in where none was, in both stores. -/
theorem register_tag (h : Twins τ ρ s t) {x : Tag} (htag : IsTag x.id)
    (hs : s.catalog.find? x.id = none) (hx : τ.tag x x)
    (hcatalog : τ.catalog (ρ.and (.tag (s.register x).2) (.tag (t.register x).2)) (s.register x).1
      (t.register x).1) :
    Twins τ (ρ.and (.tag (s.register x).2) (.tag (t.register x).2)) (s.register x).1
      (t.register x).1 where
  biUnique := Pairing.biUnique_and h.biUnique
    (fun _ he => not_has_register_self s x (h.has he).1)
    fun _ he => not_has_register_self t x (h.has he).2
  has := by
    rintro e e' (he | ⟨rfl, rfl⟩)
    · exact ⟨(has_register_iff s x e).mpr (.inl (h.has he).1),
        (has_register_iff t x e').mpr (.inl (h.has he).2)⟩
    · exact ⟨has_register_self s x, has_register_self t x⟩
  content := by
    rintro e e' (he | ⟨rfl, rfl⟩)
    · rw [content_register_of_has x (h.has he).1, content_register_of_has x (h.has he).2]
      exact (h.content he).mono hτ (ρ.le_and _ _)
    · change (Content.tag ((s.register x).1.get _)).Alike τ _ (.tag ((t.register x).1.get _))
      rw [get_register_self, get_register_self]
      exact .tag hx
  tags := by
    have hid : Record.id x = x.id := rfl
    rintro a b (hab | ⟨ha, hb⟩)
    · obtain ⟨id, hid', ha, hb⟩ := h.tags hab
      have hne : id ≠ x.id := by
        rintro rfl
        rw [hs] at ha
        cases ha
      refine ⟨id, hid', ?_, ?_⟩
      · rw [catalog_register, hid, Catalog.find?_insert_of_ne _ hne, ha]
      · rw [catalog_register, hid, Catalog.find?_insert_of_ne _ hne, hb]
    · rw [ha, hb]
      refine ⟨x.id, htag, ?_, ?_⟩
      · rw [catalog_register, hid, Catalog.find?_insert_self]
        rfl
      · rw [catalog_register, hid, Catalog.find?_insert_self]
        rfl
  catalog := hcatalog

end Twins

end

/-! ## Following an action -/

namespace Build.Follows

variable {τ : Terms} {ρ σ : Pairing} {α β γ δ : Type} {R : Pairing → α → β → Prop}
variable {Q : Pairing → γ → δ → Prop} {x : Build α} {y : Build β} {f : α → Build γ} {g : β → Build δ}

theorem pure {a : α} {b : β} (h : R ρ a b) : Follows τ ρ R (Pure.pure a) (Pure.pure b) := by
  intro s t htwins
  constructor
  · rintro _ _ ⟨⟩
    exact ⟨a, s, ρ, rfl, le_refl ρ, htwins, h⟩
  · rintro _ _ ⟨⟩

theorem throw (fault : Fault) : Follows τ ρ R (MonadExcept.throw fault : Build α)
    (MonadExcept.throw fault : Build β) := by
  intro s t _
  constructor
  · rintro _ _ ⟨⟩
  · rintro _ _ ⟨⟩ _
    exact ⟨s, rfl⟩

theorem bind (hx : Follows τ ρ R x y)
    (hf : ∀ σ a b, ρ ≤ σ → R σ a b → Follows τ σ Q (f a) (g b)) :
    Follows τ ρ Q (x >>= f) (y >>= g) := by
  intro s t htwins
  obtain ⟨hok, herror⟩ := hx s t htwins
  constructor
  · intro d t' hrun
    obtain ⟨b, t₁, hy, hg⟩ := Action.run_bind_eq_ok hrun
    obtain ⟨a, s₁, σ, hx, hle, htwins₁, hR⟩ := hok b t₁ hy
    obtain ⟨c, s', σ', hf, hle', htwins', hQ⟩ := (hf σ a b hle hR s₁ t₁ htwins₁).1 d t' hg
    exact ⟨c, s', σ', (Action.run_bind_ok hx).trans hf, hle.trans hle', htwins', hQ⟩
  · intro fault t' hrun hlocal
    rw [Action.run_bind] at hrun
    rcases hy : y.run t with ⟨fault' | b, t₁⟩
    · rw [hy] at hrun
      cases hrun
      obtain ⟨s', hx⟩ := herror _ _ hy hlocal
      exact ⟨s', Action.run_bind_error hx⟩
    · rw [hy] at hrun
      obtain ⟨a, s₁, σ, hx, hle, htwins₁, hR⟩ := hok b t₁ hy
      obtain ⟨s', hf⟩ := (hf σ a b hle hR s₁ t₁ htwins₁).2 fault t' hrun hlocal
      exact ⟨s', (Action.run_bind_ok hx).trans hf⟩

theorem weaken {R' : Pairing → α → β → Prop} (hx : Follows τ ρ R x y)
    (hR : ∀ σ a b, ρ ≤ σ → R σ a b → R' σ a b) : Follows τ ρ R' x y := by
  intro s t htwins
  obtain ⟨hok, herror⟩ := hx s t htwins
  refine ⟨fun b t' hy => ?_, herror⟩
  obtain ⟨a, s', σ, hx, hle, htwins', h⟩ := hok b t' hy
  exact ⟨a, s', σ, hx, hle, htwins', hR σ a b hle h⟩

theorem get_bind {f : Store → Build γ} {g : Store → Build δ}
    (h : ∀ s t, Twins τ ρ s t → Follows τ ρ Q (f s) (g t)) :
    Follows τ ρ Q (get >>= f) (get >>= g) :=
  fun s t htwins => h s t htwins s t htwins

theorem check_bind {ε : Type} {result : Except Fault ε} {f : ε → Build γ} {g : ε → Build δ}
    (h : ∀ a, result = .ok a → Follows τ ρ Q (f a) (g a)) :
    Follows τ ρ Q (check result >>= f) (check result >>= g) := by
  cases result with
  | ok a => exact h a rfl
  | error fault => exact throw fault

theorem some?_bind {fault : Fault} {found : Option α} {found' : Option β} {P : α → β → Prop}
    (hfound : Option.Rel P found found') (h : ∀ a b, P a b → Follows τ ρ Q (f a) (g b)) :
    Follows τ ρ Q (some? fault found >>= f) (some? fault found' >>= g) := by
  cases hfound with
  | some hab => exact h _ _ hab
  | none => exact throw fault

theorem forM {xs : List α} {f g : α → Build Unit}
    (h : ∀ σ, ρ ≤ σ → ∀ x, Follows τ σ NoResult (f x) (g x)) :
    Follows τ ρ NoResult (xs.forM f) (xs.forM g) := by
  induction xs generalizing ρ with
  | nil => exact pure trivial
  | cons x xs ih =>
      exact bind (h ρ (le_refl ρ) x) fun σ _ _ hle _ => ih fun σ' hle' => h σ' (hle.trans hle')

theorem modifies {f g : Store → Store} (h : ∀ s t, Twins τ ρ s t → Twins τ ρ (f s) (g t)) :
    Follows τ ρ NoResult (modify f : Build PUnit) (modify g : Build PUnit) := by
  intro s t htwins
  constructor
  · rintro _ _ ⟨⟩
    exact ⟨_, _, ρ, rfl, le_refl ρ, h s t htwins, trivial⟩
  · rintro _ _ ⟨⟩

section

variable {ε : Type} [Record ε] [HeapRecord ε] {r r' : Ref ε}

theorem read_bind {f : ε → Build γ} {g : ε → Build δ} (hr : ρ (Record.entry r) (Record.entry r'))
    (h : ∀ x y, (wrap x).Alike τ ρ (wrap y) → Follows τ ρ Q (f x) (g y)) :
    Follows τ ρ Q (read r >>= f) (read r' >>= g) :=
  fun s t htwins => h (s.get r) (t.get r') (htwins.alike hr) s t htwins

variable (hτ : τ.Lawful)
include hτ

theorem change {f g : ε → ε} (hr : ρ (Record.entry r) (Record.entry r'))
    (h : ∀ x y, (wrap x).Alike τ ρ (wrap y) → (wrap (f x)).Alike τ ρ (wrap (g y))) :
    Follows τ ρ NoResult (change r f) (change r' g) :=
  modifies fun _ _ htwins => htwins.modify hτ hr (h _ _)

theorem add {x y : ε} (hxy : (wrap x).Alike τ ρ (wrap y)) (hpart : (wrap x).IsPart) :
    Follows τ ρ SameRef (add x) (add y) := by
  intro s t htwins
  have hother := hpart.ne_tag
  constructor
  · rintro _ _ ⟨⟩
    exact ⟨_, _, _, rfl, ρ.le_and _ _, htwins.add hτ hxy hother, ρ.and_self _ _⟩
  · rintro _ _ ⟨⟩

theorem register {x y : ε} (hxy : (wrap x).Alike τ ρ (wrap y)) (hpart : (wrap x).IsPart) :
    Follows τ ρ SameRef (register x) (register y) := by
  intro s t htwins
  constructor
  · rintro _ _ ⟨⟩
    have hget := get_add_self s x
    refine ⟨_, _, _, rfl, ρ.le_and _ _, ?_, ρ.and_self _ _⟩
    exact (htwins.add hτ hxy hpart.ne_tag).enter hτ (ρ.and_self _ _) (hget.symm ▸ hpart)
  · rintro _ _ ⟨⟩

end

end Build.Follows

end StepTrace
