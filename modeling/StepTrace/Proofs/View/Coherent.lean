import Mathlib.Data.List.Flatten
import StepTrace.Proofs.View.Depicted

/-!
# Coherent stores

A store is coherent if all that the graph depicts is registered, and if what records refer to and
what they know to refer to them are inverse to each other (`Store.Coherent`).

Then no two edges of the graph have the same ends, so the drawing is clean (`Coherent.clean`), and
what leads to a node can be told from its record alone: the owner that it names, and what it knows to
refer to it (`Coherent.edges_into`).
-/

namespace StepTrace

open Store

namespace Store

variable {s : Store} {r : Ref Feature} {feature id : String} {outline : Option String}

/-! ## Owners -/

theorem ScenarioNames.ownerOf? {x : Ref Scenario} (h : s.ScenarioNames feature outline x) {e : Entry}
    (he : e ∈ s.scenarioParts x) : s.ownerOf? e = some (outline.getD feature) ∨
      ∃ holder ∈ s.scenarioParts x, s.ownerOf? e = some (s.idOf holder) := by
  rcases mem_scenarioParts.mp he with rfl | ⟨y, hy, rfl⟩
  · refine Or.inl ?_
    rw [Store.ownerOf?, h.outlineId, h.featureId]
  · exact Or.inr ⟨.scenario x, List.mem_cons_self .., congrArg some (h.steps y hy)⟩

theorem OutlineNames.ownerOf? {o : Ref Outline} (h : s.OutlineNames feature o) {e : Entry}
    (he : e ∈ s.outlineParts o) : s.ownerOf? e = some feature ∨
      ∃ holder ∈ s.outlineParts o, s.ownerOf? e = some (s.idOf holder) := by
  have hself : .outline o ∈ s.outlineParts o := List.mem_cons_self ..
  rcases mem_outlineParts.mp he with rfl | ⟨y, hy, rfl⟩ | ⟨t, ht, rfl⟩ | ⟨x, hx, he⟩
  · exact Or.inl (congrArg some h.featureId)
  · exact Or.inr ⟨_, hself, congrArg some (h.steps y hy)⟩
  · exact Or.inr ⟨_, hself, congrArg some (h.examples t ht)⟩
  · right
    rcases (h.rows x hx).ownerOf? he with howner | ⟨holder, hholder, howner⟩
    · exact ⟨_, hself, howner⟩
    · exact ⟨holder, mem_outlineParts.mpr (.inr (.inr (.inr ⟨x, hx, hholder⟩))), howner⟩

/-- Every part of a feature but the feature itself names one of them as its owner. -/
theorem FeaturePlaced.ownerOf? (h : s.FeaturePlaced r id) {e : Entry} (he : e ∈ s.featureParts r) :
    e = .feature r ∨ ∃ holder ∈ s.featureParts r, s.ownerOf? e = some (s.idOf holder) := by
  have hself : .feature r ∈ s.featureParts r := List.mem_cons_self ..
  have hid : s.idOf (.feature r) = id := h.placed.idOf
  rcases mem_featureParts.mp he with rfl | ⟨b, hb, hmem⟩ | ⟨c, hc, hmem⟩
  · exact Or.inl rfl
  · right
    rcases (h.background b hb).names.ownerOf? hmem with howner | ⟨holder, hholder, howner⟩
    · exact ⟨_, hself, hid ▸ howner⟩
    · exact ⟨holder, mem_featureParts.mpr (.inr (.inl ⟨b, hb, hholder⟩)), howner⟩
  · right
    obtain ⟨i, hi⟩ := h.containers.exists_of_mem hc
    have howner : s.ownerOf? e = some id ∨
        ∃ holder ∈ s.containerParts c, s.ownerOf? e = some (s.idOf holder) := by
      cases c with
      | scenario x => exact (ScenarioPlaced.names hi).ownerOf? hmem
      | outline o => exact (OutlinePlaced.names hi).ownerOf? hmem
    rcases howner with howner | ⟨holder, hholder, howner⟩
    · exact ⟨_, hself, hid ▸ howner⟩
    · exact ⟨holder, mem_featureParts.mpr (.inr (.inr ⟨c, hc, hholder⟩)), howner⟩

/-! ## Coherence -/

/-- Of what comes from the elements of a list, that with the key of one of them comes from it. -/
private theorem filter_flatMap_key {α β κ : Type} [DecidableEq κ] {f : α → List β} {key : β → κ}
    {name : α → κ} {xs : List α} (hkey : ∀ x ∈ xs, ∀ y ∈ f x, key y = name x)
    (hnodup : (xs.map name).Nodup) {x : α} (hx : x ∈ xs) :
    (xs.flatMap f).filter (fun y => key y = name x) = f x := by
  induction xs with
  | nil => cases hx
  | cons a xs ih =>
      obtain ⟨hnew, hnodup⟩ := List.nodup_cons.mp hnodup
      have hrest : ∀ b ∈ xs, ∀ y ∈ f b, key y = name b := fun b hb =>
        hkey b (List.mem_cons_of_mem _ hb)
      have hself : ∀ y ∈ f a, key y = name a := hkey a (List.mem_cons_self ..)
      rw [List.flatMap_cons, List.filter_append]
      rcases List.mem_cons.mp hx with rfl | hx
      · rw [List.filter_eq_self.mpr fun y hy => decide_eq_true (hself y hy),
          List.filter_eq_nil_iff.mpr ?_, List.append_nil]
        intro y hy heq
        obtain ⟨b, hb, hmem⟩ := List.mem_flatMap.mp hy
        exact hnew ((hrest b hb y hmem).symm.trans (of_decide_eq_true heq) ▸ List.mem_map_of_mem hb)
      · rw [ih hrest hnodup hx, List.filter_eq_nil_iff.mpr ?_, List.nil_append]
        intro y hy heq
        exact hnew ((hself y hy).symm.trans (of_decide_eq_true heq) ▸ List.mem_map_of_mem hx)

/-- All that is depicted is registered, and records refer to each other in both directions. -/
structure Coherent (s : Store) : Prop where
  features : ∀ r ∈ s.allFeatures, s.FeaturePlaced r (s.get r).id
  placed : ∀ e ∈ s.depicted, s.Placed e (s.idOf e)
  nodup : s.depicted.Nodup
  references : ∀ e ∈ s.depicted, (s.references e).Nodup ∧ ∀ e' ∈ s.references e, e' ∈ s.depicted
  referrers : ∀ e ∈ s.depicted, (s.referrers e).Nodup ∧
    ∀ id, id ∈ s.referrers e ↔ ∃ e' ∈ s.depicted, s.idOf e' = id ∧ e ∈ s.references e'

namespace Coherent

variable (h : s.Coherent)
include h

theorem eq_of_idOf_eq {e e' : Entry} (he : e ∈ s.depicted) (he' : e' ∈ s.depicted)
    (hid : s.idOf e = s.idOf e') : e = e' := by
  have hfind := (h.placed e he).find?
  rw [hid, (h.placed e' he').find?] at hfind
  exact (Option.some.inj hfind).symm

theorem nodup_idOf : (s.depicted.map s.idOf).Nodup :=
  h.nodup.map_on fun _ he _ he' => h.eq_of_idOf_eq he he'

/-- What is depicted names as its owner something that is depicted. -/
theorem owner_mem {e : Entry} (he : e ∈ s.depicted) {owner : String}
    (howner : s.ownerOf? e = some owner) : ∃ holder ∈ s.depicted, s.idOf holder = owner := by
  simp only [depicted, List.mem_append, List.mem_map] at he
  rcases he with ⟨d, -, rfl⟩ | ⟨t, -, rfl⟩ | ⟨t, -, rfl⟩ | he
  · cases howner
  · cases howner
  · cases howner
  · obtain ⟨r, hr, hmem⟩ := List.mem_flatMap.mp he
    rcases (h.features r hr).ownerOf? hmem with rfl | ⟨holder, hholder, hnamed⟩
    · cases howner
    · refine ⟨holder, ?_, Option.some.inj (hnamed.symm.trans howner)⟩
      exact List.mem_append_right _ (List.mem_append_right _ (List.mem_append_right _
        (List.mem_flatMap.mpr ⟨r, hr, hholder⟩)))

/-! ## The edges -/

/-- The targets of edges from owners are different. -/
theorem nodup_owning : ((s.depicted.flatMap s.owning).map (·.target)).Nodup := by
  refine h.nodup_idOf.sublist ?_
  rw [List.map_flatMap, ← List.flatMap_singleton' (s.depicted.map s.idOf), List.flatMap_map]
  refine List.Sublist.flatMap_right _ fun e _ => ?_
  unfold owning
  cases s.ownerOf? e with
  | none => exact List.nil_sublist _
  | some owner => exact List.Sublist.refl _

/-- The ends of edges to what is referred to are different. -/
theorem nodup_referring : ((s.depicted.flatMap s.referring).map Edge.ends).Nodup := by
  rw [List.map_flatMap, List.nodup_flatMap]
  constructor
  · intro e he
    obtain ⟨hnodup, hmem⟩ := h.references e he
    rw [referring, List.map_map]
    refine hnodup.map_on fun a ha b hb hab => ?_
    exact h.eq_of_idOf_eq (hmem a ha) (hmem b hb) (congrArg Prod.snd hab)
  · refine h.nodup.imp_of_mem fun {e e'} he he' hne => ?_
    rintro ends hmem hmem'
    simp only [referring, List.map_map, List.mem_map] at hmem hmem'
    obtain ⟨a, -, rfl⟩ := hmem
    obtain ⟨b, -, hab⟩ := hmem'
    exact hne (h.eq_of_idOf_eq he he' (congrArg Prod.fst hab).symm)

omit h in
theorem mem_owning {x : Edge} (hx : x ∈ s.depicted.flatMap s.owning) :
    ∃ e ∈ s.depicted, e.kind.IsPart ∧ s.idOf e = x.target ∧ s.ownerOf? e = some x.source ∧
      x.relation = .contains := by
  obtain ⟨e, he, hmem⟩ := List.mem_flatMap.mp hx
  obtain ⟨owner, howner, rfl⟩ := List.mem_map.mp hmem
  have howner := Option.mem_toList.mp howner
  exact ⟨e, he, isPart_of_ownerOf? (Option.isSome_of_mem howner), rfl, howner, rfl⟩

theorem mem_referring {x : Edge} (hx : x ∈ s.depicted.flatMap s.referring) :
    ∃ e ∈ s.depicted, ∃ e' ∈ s.depicted, e' ∈ s.references e ∧ ¬ e'.kind.IsPart ∧
      x = ⟨s.idOf e, s.idOf e', e'.relation⟩ := by
  obtain ⟨e, he, hmem⟩ := List.mem_flatMap.mp hx
  obtain ⟨e', he', rfl⟩ := List.mem_map.mp hmem
  exact ⟨e, he, e', (h.references e he).2 e' he', he', (relation_of_mem_references he').1, rfl⟩

/-- **The drawing is clean.** -/
theorem clean : CleanStrokes (s.depicted.flatMap s.strokes) := by
  have hperm := List.flatMap_append_perm s.depicted s.owning s.referring
  constructor
  case nodes =>
    rw [nodesNamed_strokes, List.map_map]
    exact h.nodup_idOf
  case edges =>
    rw [edgesDrawn_strokes, ← (hperm.map _).nodup_iff, List.map_append, List.nodup_append']
    refine ⟨?_, h.nodup_referring, ?_⟩
    · refine List.Nodup.of_map Prod.snd ?_
      rw [List.map_map]
      exact h.nodup_owning
    · intro ends hmem hmem'
      obtain ⟨x, hx, rfl⟩ := List.mem_map.mp hmem
      obtain ⟨y, hy, hends⟩ := List.mem_map.mp hmem'
      obtain ⟨e, he, hpart, htarget, -⟩ := mem_owning hx
      obtain ⟨a, ha, b, hb, -, hnot, rfl⟩ := h.mem_referring hy
      have heq : b = e := h.eq_of_idOf_eq hb he ((congrArg Prod.snd hends).trans htarget.symm)
      exact hnot (heq ▸ hpart)
  case ends =>
    rw [edgesDrawn_strokes, nodesNamed_strokes, List.map_map]
    intro x hx
    have hnode {e : Entry} (he : e ∈ s.depicted) :
        s.idOf e ∈ s.depicted.map (Prod.fst ∘ fun e => (s.idOf e, s.faceOf e)) :=
      List.mem_map_of_mem (f := Prod.fst ∘ fun e => (s.idOf e, s.faceOf e)) he
    rcases List.mem_append.mp (hperm.mem_iff.mpr hx) with hx | hx
    · obtain ⟨e, he, -, htarget, howner, -⟩ := mem_owning hx
      obtain ⟨holder, hholder, hid⟩ := h.owner_mem he howner
      exact ⟨hid ▸ hnode hholder, htarget ▸ hnode he⟩
    · obtain ⟨a, ha, b, hb, -, -, rfl⟩ := h.mem_referring hx
      exact ⟨hnode ha, hnode hb⟩

/-- **What records refer to is what is known to be referred to.** -/
theorem referring_perm : (s.depicted.flatMap s.referring).Perm (s.depicted.flatMap s.referred) := by
  have hnodup : (s.depicted.flatMap s.referred).Nodup := by
    rw [List.nodup_flatMap]
    constructor
    · intro e he
      exact (h.referrers e he).1.map fun a b hab => congrArg Edge.source hab
    · refine h.nodup.imp_of_mem fun {e e'} he he' hne x hmem hmem' => ?_
      obtain ⟨a, -, rfl⟩ := List.mem_map.mp hmem
      obtain ⟨b, -, hab⟩ := List.mem_map.mp hmem'
      exact hne (h.eq_of_idOf_eq he he' (congrArg Edge.target hab).symm)
  refine (List.perm_ext_iff_of_nodup (List.Nodup.of_map _ h.nodup_referring) hnodup).mpr fun x => ?_
  constructor
  · intro hx
    obtain ⟨e, he, e', he', href, -, rfl⟩ := h.mem_referring hx
    refine List.mem_flatMap.mpr ⟨e', he', List.mem_map.mpr ⟨s.idOf e, ?_, rfl⟩⟩
    exact ((h.referrers e' he').2 _).mpr ⟨e, he, rfl, href⟩
  · intro hx
    obtain ⟨e', he', hmem⟩ := List.mem_flatMap.mp hx
    obtain ⟨id, hid, rfl⟩ := List.mem_map.mp hmem
    obtain ⟨e, he, rfl, href⟩ := ((h.referrers e' he').2 id).mp hid
    exact List.mem_flatMap.mpr ⟨e, he, List.mem_map.mpr ⟨e', href, rfl⟩⟩

/-! ## The graph -/

theorem nodes_perm : (LinkGraph.ofStore s).nodes.entries.Perm
    (s.depicted.map fun e => (s.idOf e, some (s.faceOf e))) := by
  rw [LinkGraph.ofStore_eq_drawAll h.features]
  refine (LinkGraph.drawAll_nodes h.clean).trans (.of_eq ?_)
  rw [nodesNamed_strokes, List.map_map]
  rfl

theorem edges_perm : (LinkGraph.ofStore s).edges.Perm
    (s.depicted.flatMap fun e => s.owning e ++ s.referring e) := by
  rw [LinkGraph.ofStore_eq_drawAll h.features, ← edgesDrawn_strokes]
  exact LinkGraph.drawAll_edges h.clean

/-- The edges of the graph, told from what they lead to. -/
theorem edges_perm_referred : (LinkGraph.ofStore s).edges.Perm
    (s.depicted.flatMap fun e => s.owning e ++ s.referred e) :=
  h.edges_perm.trans ((List.flatMap_append_perm ..).symm.trans
    ((h.referring_perm.append_left _).trans (List.flatMap_append_perm ..)))

/-- **What leads to a node are the owner that its record names, and what it knows to refer to it.** -/
theorem edges_into {e : Entry} (he : e ∈ s.depicted) :
    ((LinkGraph.ofStore s).edges.filter fun x => x.target = s.idOf e).Perm
      (s.owning e ++ s.referred e) := by
  have htarget : ∀ e', ∀ x ∈ s.owning e' ++ s.referred e', x.target = s.idOf e' := by
    intro e' x hx
    rcases List.mem_append.mp hx with hx | hx
    all_goals
      obtain ⟨_, -, rfl⟩ := List.mem_map.mp hx
      rfl
  refine (h.edges_perm_referred.filter _).trans (.of_eq ?_)
  exact filter_flatMap_key (fun e' _ => htarget e') h.nodup_idOf he

end Coherent

end Store

end StepTrace
