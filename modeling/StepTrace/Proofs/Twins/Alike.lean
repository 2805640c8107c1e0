import Mathlib.Data.List.Forall2
import Mathlib.Order.Basic
import StepTrace.Proofs.Build.Steps

/-!
# Records that stand for each other

Two registries can hold the same things at different places.  Which record of the one stands for
which record of the other is said by a pairing of their entries; two records are alike if they are
equal but for their references, and these are paired one by one (`Content.Alike`).

How far tags and namespaces have to agree, which documents share, is left open (`Terms`): two
registries with the same past agree on them altogether, two with different pasts only in what one
document adds.
-/

namespace StepTrace

/-- Which entries of two stores stand for each other. -/
abbrev Pairing := Entry → Entry → Prop

namespace Pairing

variable {α : Type} [Record α] {ρ σ : Pairing} {xs ys : List (Ref α)} {a b : Ref α}

/-- The references stand for each other one by one. -/
def Refs (ρ : Pairing) (xs ys : List (Ref α)) : Prop :=
  List.Forall₂ (fun a b => ρ (Record.entry a) (Record.entry b)) xs ys

theorem Refs.imp (h : ρ.Refs xs ys)
    (hle : ∀ a b : Ref α, ρ (Record.entry a) (Record.entry b) →
      σ (Record.entry a) (Record.entry b)) : σ.Refs xs ys :=
  List.Forall₂.imp hle h

theorem Refs.mono (h : ρ.Refs xs ys) (hle : ρ ≤ σ) : σ.Refs xs ys :=
  h.imp fun _ _ => hle _ _

theorem Refs.concat (h : ρ.Refs xs ys) (hab : ρ (Record.entry a) (Record.entry b)) :
    ρ.Refs (xs ++ [a]) (ys ++ [b]) :=
  List.rel_append h (.cons hab .nil)

/-- In one-to-one pairings the one list has a reference if the other has its partner. -/
theorem Refs.mem_iff [HeapRecord α] (hρ : Relator.BiUnique ρ) (h : ρ.Refs xs ys)
    (hab : ρ (Record.entry a) (Record.entry b)) : a ∈ xs ↔ b ∈ ys := by
  have hrefs : Relator.BiUnique fun a b : Ref α => ρ (Record.entry a) (Record.entry b) :=
    ⟨fun _ _ _ h h' => HeapRecord.entry_injective (hρ.1 h h'),
      fun _ _ _ h h' => HeapRecord.entry_injective (hρ.2 h h')⟩
  exact List.rel_mem hrefs hab h

/-- What is paired stays so, except perhaps for namespaces. -/
def LeParts (ρ σ : Pairing) : Prop :=
  ∀ e e', e.kind ≠ .nameSpace → ρ e e' → σ e e'

theorem LeParts.trans {ρ σ χ : Pairing} (h : ρ.LeParts σ) (h' : σ.LeParts χ) : ρ.LeParts χ :=
  fun e e' hkind he => h' e e' hkind (h e e' hkind he)

theorem leParts_of_le (h : ρ ≤ σ) : ρ.LeParts σ :=
  fun e e' _ => h e e'

/-- The pairing with one more pair. -/
def and (ρ : Pairing) (e e' : Entry) : Pairing :=
  fun x y => ρ x y ∨ x = e ∧ y = e'

theorem le_and (ρ : Pairing) (e e' : Entry) : ρ ≤ ρ.and e e' :=
  fun _ _ => Or.inl

theorem and_self (ρ : Pairing) (e e' : Entry) : ρ.and e e' e e' :=
  Or.inr ⟨rfl, rfl⟩

/-- A pair of entries without partners leaves a pairing one-to-one. -/
theorem biUnique_and (hρ : Relator.BiUnique ρ) {e e' : Entry} (he : ∀ y, ¬ ρ e y)
    (he' : ∀ x, ¬ ρ x e') : Relator.BiUnique (ρ.and e e') := by
  constructor
  · rintro x y z (hx | ⟨rfl, rfl⟩) (hy | ⟨rfl, hz⟩)
    · exact hρ.1 hx hy
    · exact absurd (hz ▸ hx) (he' _)
    · exact absurd hy (he' _)
    · rfl
  · rintro x y z (hx | ⟨rfl, rfl⟩) (hy | ⟨hz, rfl⟩)
    · exact hρ.2 hx hy
    · exact absurd (hz ▸ hx) (he _)
    · exact absurd hy (he _)
    · rfl

end Pairing

/-! ## Records of one type -/

/-- The step without its links. -/
def Step.bare (x : Step) : Step :=
  { x with definition := none, transforms := [] }

/-- The scenario without its references. -/
def Scenario.bare (x : Scenario) : Scenario :=
  { x with steps := [], tags := [] }

/-- The table without its references. -/
def Examples.bare (x : Examples) : Examples :=
  { x with tags := [] }

/-- The outline without its references. -/
def Outline.bare (x : Outline) : Outline :=
  { x with steps := [], tags := [], examples := [], scenarios := [] }

/-- The feature without its references. -/
def Feature.bare (x : Feature) : Feature :=
  { x with tags := [], scenarios := [], background := none }

structure Step.Alike (ρ : Pairing) (x y : Step) : Prop where
  bare : x.bare = y.bare
  definition : ρ.Refs x.definition.toList y.definition.toList
  transforms : ρ.Refs x.transforms y.transforms

structure Scenario.Alike (ρ : Pairing) (x y : Scenario) : Prop where
  bare : x.bare = y.bare
  steps : ρ.Refs x.steps y.steps
  tags : ρ.Refs x.tags y.tags

structure Examples.Alike (ρ : Pairing) (x y : Examples) : Prop where
  bare : x.bare = y.bare
  tags : ρ.Refs x.tags y.tags

structure Outline.Alike (ρ : Pairing) (x y : Outline) : Prop where
  bare : x.bare = y.bare
  steps : ρ.Refs x.steps y.steps
  tags : ρ.Refs x.tags y.tags
  examples : ρ.Refs x.examples y.examples
  scenarios : ρ.Refs x.scenarios y.scenarios

structure Feature.Alike (ρ : Pairing) (x y : Feature) : Prop where
  bare : x.bare = y.bare
  tags : ρ.Refs x.tags y.tags
  scenarios : List.Forall₂ (fun c d => ρ c.entry d.entry) x.scenarios y.scenarios
  background : ρ.Refs x.background.toList y.background.toList

/-! Parts of documents do not refer to namespaces. -/

section

variable {ρ σ : Pairing} (hle : ρ.LeParts σ)
include hle

theorem Step.Alike.mono {x y : Step} (h : x.Alike ρ y) : x.Alike σ y :=
  ⟨h.bare, h.definition.imp fun _ _ => hle _ _ nofun, h.transforms.imp fun _ _ => hle _ _ nofun⟩

theorem Scenario.Alike.mono {x y : Scenario} (h : x.Alike ρ y) : x.Alike σ y :=
  ⟨h.bare, h.steps.imp fun _ _ => hle _ _ nofun, h.tags.imp fun _ _ => hle _ _ nofun⟩

theorem Examples.Alike.mono {x y : Examples} (h : x.Alike ρ y) : x.Alike σ y :=
  ⟨h.bare, h.tags.imp fun _ _ => hle _ _ nofun⟩

theorem Outline.Alike.mono {x y : Outline} (h : x.Alike ρ y) : x.Alike σ y :=
  ⟨h.bare, h.steps.imp fun _ _ => hle _ _ nofun, h.tags.imp fun _ _ => hle _ _ nofun,
    h.examples.imp fun _ _ => hle _ _ nofun, h.scenarios.imp fun _ _ => hle _ _ nofun⟩

theorem Feature.Alike.mono {x y : Feature} (h : x.Alike ρ y) : x.Alike σ y :=
  ⟨h.bare, h.tags.imp fun _ _ => hle _ _ nofun,
    h.scenarios.imp fun c _ => hle _ _ (by cases c <;> nofun),
    h.background.imp fun _ _ => hle _ _ nofun⟩

end

/-! ## Records of any type -/

/-- The terms on which two stores are compared. -/
structure Terms where
  /-- The identifiers that features may have. -/
  file : String → Prop
  /-- The identifiers that features and their parts may have. -/
  part : String → Prop
  tag : Tag → Tag → Prop
  nameSpace : Pairing → Namespace → Namespace → Prop
  /-- What definitions and transforms know of the steps that are linked to them. -/
  links : List String → List String → Prop
  /-- What is registered. -/
  catalog : Pairing → Store → Store → Prop

/-- Records that are equal but for their references, which are paired. -/
inductive Content.Alike (τ : Terms) (ρ : Pairing) : Content → Content → Prop
  | nameSpace {x y : Namespace} (h : τ.nameSpace ρ x y) : Alike τ ρ (.nameSpace x) (.nameSpace y)
  | feature {x y : Feature} (hid : τ.file x.id) (h : x.Alike ρ y) : Alike τ ρ (.feature x) (.feature y)
  | scenario {x y : Scenario} (hid : τ.part x.id) (h : x.Alike ρ y) :
      Alike τ ρ (.scenario x) (.scenario y)
  | outline {x y : Outline} (hid : τ.part x.id) (h : x.Alike ρ y) : Alike τ ρ (.outline x) (.outline y)
  | examples {x y : Examples} (hid : τ.part x.id) (h : x.Alike ρ y) :
      Alike τ ρ (.examples x) (.examples y)
  | step {x y : Step} (hid : τ.part x.id) (h : x.Alike ρ y) : Alike τ ρ (.step x) (.step y)
  | tag {x y : Tag} (h : τ.tag x y) : Alike τ ρ (.tag x) (.tag y)
  | definition {x y : Definition} (h : { x with steps := [] } = ({ y with steps := [] } : Definition))
      (hlinks : τ.links x.steps y.steps) : Alike τ ρ (.definition x) (.definition y)
  | transform {x y : Transform} (h : { x with steps := [] } = ({ y with steps := [] } : Transform))
      (hlinks : τ.links x.steps y.steps) : Alike τ ρ (.transform x) (.transform y)

/-- The two stores agree: what is paired is alike, and so is what is registered. -/
structure Agree (τ : Terms) (ρ : Pairing) (s t : Store) : Prop where
  biUnique : Relator.BiUnique ρ
  has : ∀ {e e'}, ρ e e' → s.Has e ∧ t.Has e'
  content : ∀ {e e'}, ρ e e' → (s.content e).Alike τ ρ (t.content e')
  catalog : τ.catalog ρ s t

theorem Agree.kind_eq {τ : Terms} {ρ : Pairing} {s t : Store} (h : Agree τ ρ s t) {e e' : Entry}
    (he : ρ e e') : e.kind = e'.kind := by
  have hcontent := h.content he
  cases e <;> cases e' <;> first | rfl | cases hcontent

/-- The two stores are twins: they agree, and what tags are paired they find. -/
structure Twins (τ : Terms) (ρ : Pairing) (s t : Store) : Prop extends Agree τ ρ s t where
  /-- Tags that are paired are registered under the same identifier. -/
  tags : ∀ {a b}, ρ (.tag a) (.tag b) → ∃ id, IsTag id ∧
    s.catalog.find? id = some (.tag a) ∧ t.catalog.find? id = some (.tag b)

end StepTrace
