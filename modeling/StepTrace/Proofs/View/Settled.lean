import StepTrace.Proofs.Linking.Fresh
import StepTrace.Proofs.Rollback.Effect
import StepTrace.Proofs.Tags.Exact
import StepTrace.Proofs.Twins.Unordered
import StepTrace.Proofs.View.Coherent

/-!
# What was built and linked is coherent

After a batch, tags and what declares them know each other (`TagsInverse`); this stays so when
targets come in and steps are linked, since neither changes any tags.  After a pass, steps and targets
know each other.  Together this makes the registry coherent (`Orderly.coherent`,
`Batch.build_coherent`).
-/

namespace StepTrace

open Store

namespace Store

variable {files : String → Prop} {linked : Prop} {s s' : Store} {feature id : String}

/-! ## Parts under a change of links -/

section

variable (h : s.Preserves s')
include h

theorem Preserves.featureParts {r : Ref Feature} (hr : s.FeaturePlaced r id) :
    s'.featureParts r = s.featureParts r := by
  refine featureParts_congr fun e he hstep => ?_
  have hfind := (hr.placed_parts e he).find?
  have hkind := kind_of_mem_featureParts he
  cases e with
  | step => exact absurd rfl hstep
  | definition | transform => rcases hkind with hkind | hkind <;> cases hkind
  | _ => exact h.content hfind nofun

/-- What is registered keeps its tags. -/
theorem Preserves.tagList {e : Entry} (he : s.catalog.find? id = some e) (hkind : ¬ e.kind.IsTarget) :
    s'.tagList e = s.tagList e := by
  have hsame := h.content he hkind
  have hunlinked : ∀ c : Content, c.unlinked.tags? = c.tags? := fun c => by cases c <;> rfl
  rw [Store.tagList, Store.tagList, tagsOf?_eq, tagsOf?_eq, ← hunlinked, hsame, hunlinked]

end

/-! ## Tags and what declares them -/

/-- The parts of features have registered tags, each once, and the owners of a tag are the parts that
have it. -/
structure TagsInverse (s : Store) : Prop where
  held : ∀ e ∈ s.allFeatures.flatMap s.featureParts,
    (s.tagList e).Nodup ∧ ∀ t ∈ s.tagList e, t ∈ s.allTags
  owners : ∀ t ∈ s.allTags, (s.get t).owners.Nodup ∧ ∀ id, id ∈ (s.get t).owners ↔
    ∃ e ∈ s.allFeatures.flatMap s.featureParts, s.idOf e = id ∧ t ∈ s.tagList e

theorem not_isTarget_of_mem_parts {e : Entry} (he : e ∈ s.allFeatures.flatMap s.featureParts) :
    ¬ e.kind.IsTarget := by
  rcases kind_of_mem_parts he with hkind | hkind
  · rw [hkind]
    exact nofun
  · intro htarget
    cases e <;> first | exact htarget | exact hkind

/-- The same parts belong to registered features. -/
theorem Relinked.mem_parts (hlinks : Relinked linked s s') (h : Orderly files linked s) {e : Entry} :
    e ∈ s'.allFeatures.flatMap s'.featureParts ↔ e ∈ s.allFeatures.flatMap s.featureParts := by
  simp only [List.mem_flatMap]
  refine exists_congr fun r => ?_
  rw [mem_allFeatures h.consistent, mem_allFeatures hlinks.consistent]
  constructor
  · rintro ⟨⟨id, hid⟩, he⟩
    have hid := hlinks.old hid nofun
    exact ⟨⟨id, hid⟩, hlinks.featureParts (h.placed hid) ▸ he⟩
  · rintro ⟨⟨id, hid⟩, he⟩
    exact ⟨⟨id, hlinks.find? hid nofun⟩, (hlinks.featureParts (h.placed hid)).symm ▸ he⟩

/-- **A change of links leaves tags and what declares them inverse.** -/
theorem TagsInverse.relinked (htags : TagsInverse s) (h : Orderly files linked s)
    (hfiles : ∀ file, files file → FeatureFile file) (hlinks : Relinked linked s s') :
    TagsInverse s' := by
  have hmem {t : Ref Tag} : t ∈ s'.allTags ↔ t ∈ s.allTags := by
    rw [mem_allTags h.consistent, mem_allTags hlinks.consistent]
    exact exists_congr fun id => ⟨fun ht => hlinks.old ht nofun, fun ht => hlinks.find? ht nofun⟩
  have hplaced : ∀ e ∈ s.allFeatures.flatMap s.featureParts, s.Placed e (s.idOf e) :=
    (h.parts hfiles).1
  have hlist : ∀ e ∈ s.allFeatures.flatMap s.featureParts, s'.tagList e = s.tagList e :=
    fun e he => hlinks.tagList (hplaced e he).find? (not_isTarget_of_mem_parts he)
  constructor
  · intro e he
    have he := (hlinks.mem_parts h).mp he
    rw [hlist e he]
    exact ⟨(htags.held e he).1, fun t ht => hmem.mpr ((htags.held e he).2 t ht)⟩
  · intro t ht
    obtain ⟨id, hid⟩ := (mem_allTags h.consistent).mp (hmem.mp ht)
    obtain ⟨hnodup, howners⟩ := htags.owners t (hmem.mp ht)
    rw [hlinks.get_tag hid]
    refine ⟨hnodup, fun owner => ?_⟩
    rw [howners]
    refine exists_congr fun e => ?_
    rw [hlinks.mem_parts h]
    refine and_congr_right fun he => ?_
    rw [hlist e he, (hlinks.placed (hplaced e he) (not_isTarget_of_mem_parts he)).idOf]

/-! ## Targets come in -/

/-- If no targets are registered, they may be. -/
theorem Orderly.allow (h : Orderly files False s) : Orderly files True s where
  toSorted := { h.toSorted with
    fits := fun {id e} he => by
      have hfits := h.fits he
      cases e <;> first | exact hfits | exact hfits.elim }
  owned := h.owned
  placed := h.placed

end Store

/-- The identifier of a target. -/
def Target.id : Target → String
  | definition x => x.id
  | transform x => x.id

namespace Store

variable {files : String → Prop} {linked : Prop} {s s' : Store} {feature id : String}

theorem Orderly.registerTarget (h : Orderly files True s) (target : Target)
    (hfree : s.Free target.id) : Relinked True s (s.registerTarget target) := by
  cases target with
  | definition x => exact relinked_register h.consistent h.labelled trivial x (fun _ => trivial) hfree
  | transform x => exact relinked_register h.consistent h.labelled trivial x (fun _ => trivial) hfree

/-- **Targets under identifiers that are free** leave a registry orderly, and its tags as they
are. -/
theorem Orderly.registerTargets (h : Orderly files True s) (htags : TagsInverse s)
    (hfiles : ∀ file, files file → FeatureFile file) (targets : List Target)
    (hfree : ∀ target ∈ targets, s.Free target.id) :
    Orderly files True (s.registerTargets targets) ∧ TagsInverse (s.registerTargets targets) := by
  induction targets generalizing s with
  | nil => exact ⟨h, htags⟩
  | cons target targets ih =>
      have hlinks := h.registerTarget target (hfree target (List.mem_cons_self ..))
      refine ih (h.relinked hlinks) (htags.relinked h hfiles hlinks) fun other hother e he => ?_
      by_contra hkind
      exact hkind (hfree other (List.mem_cons_of_mem _ hother) e (hlinks.old he hkind))

/-! ## Coherence -/

/-- What is picked from the order of a kind is picked once. -/
private theorem nodup_picked {α : Type} {entry : α → Entry} {pick : Entry → Option α}
    (hc : s.catalog.Consistent) (hlabelled : s.Labelled) (kind : Kind)
    (hentry : ∀ a b, entry a = entry b → a = b) (hpick : ∀ e x, pick e = some x → e = entry x) :
    (((s.catalog.ofKind kind).filterMap pick).map entry).Nodup := by
  refine List.Nodup.map (fun a b => hentry a b) ((nodup_ofKind hc hlabelled kind).filterMap ?_)
  intro e e' x he he'
  rw [hpick e x he, hpick e' x he']

/-- Nothing is depicted twice. -/
theorem Orderly.nodup_depicted (h : Orderly files linked s)
    (hfiles : ∀ file, files file → FeatureFile file) : s.depicted.Nodup := by
  have hparts : (s.allFeatures.flatMap s.featureParts).Nodup := .of_map s.idOf (h.parts hfiles).2
  have hdefinitions : (s.allDefinitions.map Entry.definition).Nodup :=
    nodup_picked h.consistent h.labelled .definition (fun _ _ => Entry.definition.inj) fun e _ he => by
      cases e <;> cases he
      rfl
  have htransforms : (s.allTransforms.map Entry.transform).Nodup :=
    nodup_picked h.consistent h.labelled .transform (fun _ _ => Entry.transform.inj) fun e _ he => by
      cases e <;> cases he
      rfl
  have htags : (s.allTags.map Entry.tag).Nodup :=
    nodup_picked h.consistent h.labelled .tag (fun _ _ => Entry.tag.inj) fun e _ he => by
      cases e <;> cases he
      rfl
  have htag : ∀ e ∈ s.allTags.map Entry.tag, e ∉ s.allFeatures.flatMap s.featureParts := by
    intro e he hmem
    obtain ⟨t, -, rfl⟩ := List.mem_map.mp he
    rcases kind_of_mem_parts hmem with hkind | hkind <;> cases hkind
  have htarget : ∀ e : Entry, e.kind.IsTarget →
      e ∉ s.allTags.map Entry.tag ++ s.allFeatures.flatMap s.featureParts := by
    intro e he hmem
    rcases List.mem_append.mp hmem with hmem | hmem
    · obtain ⟨t, -, rfl⟩ := List.mem_map.mp hmem
      exact he
    · exact not_isTarget_of_mem_parts hmem he
  refine List.nodup_append'.mpr ⟨hdefinitions, List.nodup_append'.mpr ⟨htransforms,
    List.nodup_append'.mpr ⟨htags, hparts, htag⟩, ?_⟩, ?_⟩
  · intro e he
    obtain ⟨t, -, rfl⟩ := List.mem_map.mp he
    exact htarget (.transform t) trivial
  · intro e he hmem
    obtain ⟨d, -, rfl⟩ := List.mem_map.mp he
    rcases List.mem_append.mp hmem with hmem | hmem
    · obtain ⟨t, -, heq⟩ := List.mem_map.mp hmem
      cases heq
    · exact htarget (.definition d) trivial hmem

theorem mem_parts_of_references {e e' : Entry} (he : e ∈ s.depicted) (href : e' ∈ s.references e) :
    e ∈ s.allFeatures.flatMap s.featureParts := by
  simp only [depicted, List.mem_append, List.mem_map] at he
  rcases he with ⟨d, -, rfl⟩ | ⟨t, -, rfl⟩ | ⟨t, -, rfl⟩ | he
  · cases href
  · cases href
  · cases href
  · exact he

theorem mem_references_tag {e : Entry} {t : Ref Tag} :
    .tag t ∈ s.references e ↔ t ∈ s.tagList e := by
  rw [references, List.mem_append, List.mem_map]
  constructor
  · rintro (⟨t', ht', heq⟩ | hlink)
    · cases heq
      exact ht'
    · cases e with
      | step x => simp [linksOf] at hlink
      | _ => cases hlink
  · exact fun ht => Or.inl ⟨t, ht, rfl⟩

/-- Nothing but a step refers to anything but tags. -/
theorem mem_references_of_not_tag {e l : Entry} (h : ∀ t, l ≠ .tag t) :
    l ∈ s.references e ↔ ∃ x, e = .step x ∧ l ∈ s.linksOf (.step x) := by
  rw [references, List.mem_append]
  constructor
  · rintro (htag | hlink)
    · obtain ⟨t, -, rfl⟩ := List.mem_map.mp htag
      exact absurd rfl (h t)
    · cases e with
      | step x => exact ⟨x, rfl, hlink⟩
      | _ => cases hlink
  · rintro ⟨x, rfl, hlink⟩
    exact Or.inr hlink

theorem mem_references_definition {e : Entry} {d : Ref Definition} :
    .definition d ∈ s.references e ↔ ∃ x, e = .step x ∧ (s.get x).definition = some d := by
  rw [mem_references_of_not_tag (l := .definition d) fun _ => nofun]
  simp [linksOf]

theorem mem_references_transform {e : Entry} {t : Ref Transform} :
    .transform t ∈ s.references e ↔ ∃ x, e = .step x ∧ t ∈ (s.get x).transforms := by
  rw [mem_references_of_not_tag (l := .transform t) fun _ => nofun]
  simp [linksOf]

/-- Steps that run are parts of registered features. -/
theorem mem_parts_of_running {x : Ref Step} (hx : x ∈ s.runningSteps) :
    .step x ∈ s.allFeatures.flatMap s.featureParts := by
  obtain ⟨r, hr, hx⟩ := List.mem_flatMap.mp hx
  exact List.mem_flatMap.mpr ⟨r, hr, (steps_sublist_featureParts s r).subset (List.mem_map_of_mem hx)⟩

theorem nodup_references {e : Entry} (htags : (s.tagList e).Nodup)
    (hlinks : ∀ x, e = .step x → (s.get x).transforms.Nodup) : (s.references e).Nodup := by
  have htagged : ((s.tagList e).map Entry.tag).Nodup := htags.map fun _ _ => Entry.tag.inj
  have hlinked : (s.linksOf e).Nodup := by
    cases e with
    | step x =>
        refine List.nodup_append'.mpr ⟨?_, (hlinks x rfl).map fun _ _ => Entry.transform.inj, ?_⟩
        · cases (s.get x).definition with
          | none => exact List.nodup_nil
          | some d => exact List.nodup_singleton _
        · intro e he he'
          obtain ⟨d, -, rfl⟩ := List.mem_map.mp he
          obtain ⟨t, -, heq⟩ := List.mem_map.mp he'
          cases heq
    | _ => exact List.nodup_nil
  refine List.nodup_append'.mpr ⟨htagged, hlinked, ?_⟩
  intro e' he' hlink
  obtain ⟨t, -, rfl⟩ := List.mem_map.mp he'
  cases e with
  | step x => simp [linksOf] at hlink
  | _ => cases hlink

theorem mem_depicted_definition {d : Ref Definition} (h : d ∈ s.allDefinitions) :
    .definition d ∈ s.depicted :=
  List.mem_append_left _ (List.mem_map_of_mem h)

theorem mem_depicted_transform {t : Ref Transform} (h : t ∈ s.allTransforms) :
    .transform t ∈ s.depicted :=
  List.mem_append_right _ (List.mem_append_left _ (List.mem_map_of_mem h))

theorem mem_depicted_tag {t : Ref Tag} (h : t ∈ s.allTags) : .tag t ∈ s.depicted :=
  List.mem_append_right _ (List.mem_append_right _
    (List.mem_append_left _ (List.mem_map_of_mem h)))

theorem mem_depicted_part {e : Entry} (h : e ∈ s.allFeatures.flatMap s.featureParts) :
    e ∈ s.depicted :=
  List.mem_append_right _ (List.mem_append_right _ (List.mem_append_right _ h))

/-- What is depicted is registered under its identifier. -/
theorem Orderly.placed_depicted (h : Orderly files linked s)
    (hfiles : ∀ file, files file → FeatureFile file) {e : Entry} (he : e ∈ s.depicted) :
    s.Placed e (s.idOf e) := by
  have hc := h.consistent
  have hof {id : String} {e : Entry} (he : s.catalog.find? id = some e) :
      s.Placed e (s.idOf e) := by
    have hplaced := h.labelled he
    rwa [hplaced.idOf]
  simp only [depicted, List.mem_append, List.mem_map] at he
  rcases he with ⟨d, hd, rfl⟩ | ⟨t, ht, rfl⟩ | ⟨t, ht, rfl⟩ | he
  · exact hof ((mem_allDefinitions hc).mp hd).choose_spec
  · exact hof ((mem_allTransforms hc).mp ht).choose_spec
  · exact hof ((mem_allTags hc).mp ht).choose_spec
  · exact (h.parts hfiles).1 e he

/-- What a record refers to is depicted, and it refers to it once. -/
theorem references_depicted {done : List (Ref Step)} (htags : TagsInverse s)
    (hlinks : LinkedFor done s) (hstep : ∀ x, .step x ∈ s.depicted → x ∈ s.allSteps) {e : Entry}
    (he : e ∈ s.depicted) : (s.references e).Nodup ∧ ∀ e' ∈ s.references e, e' ∈ s.depicted := by
  constructor
  · refine nodup_references ?_ fun x hx => hlinks.nodup x (hstep x (hx ▸ he))
    by_cases hpart : e ∈ s.allFeatures.flatMap s.featureParts
    · exact (htags.held e hpart).1
    · rw [List.eq_nil_iff_forall_not_mem.mpr fun t ht =>
        hpart (mem_parts_of_references he (mem_references_tag.mpr ht))]
      exact List.nodup_nil
  · intro e' href
    cases e' with
    | tag t =>
        have hheld := (htags.held e (mem_parts_of_references he href)).2
        exact mem_depicted_tag (hheld t (mem_references_tag.mp href))
    | definition d =>
        obtain ⟨x, rfl, hd⟩ := mem_references_definition.mp href
        exact mem_depicted_definition (hlinks.definition x (hstep x he) d hd).2
    | transform t =>
        obtain ⟨x, rfl, ht⟩ := mem_references_transform.mp href
        exact mem_depicted_transform (hlinks.transform x (hstep x he) t ht).2
    | _ => exact absurd rfl (relation_of_mem_references href).2

/-- The steps that have a link are what refers to the record that they have it to. -/
theorem mem_linked_iff {done : List (Ref Step)} {p : Ref Step → Bool} {e : Entry}
    (hdone : ∀ x ∈ done, .step x ∈ s.depicted)
    (href : ∀ e' ∈ s.depicted, e ∈ s.references e' ↔ ∃ x ∈ done, e' = .step x ∧ p x = true)
    (id : String) : id ∈ ((done.filter p).map fun x => (s.get x).id) ↔
      ∃ e' ∈ s.depicted, s.idOf e' = id ∧ e ∈ s.references e' := by
  refine List.mem_map.trans ⟨?_, ?_⟩
  · rintro ⟨x, hx, rfl⟩
    obtain ⟨hmem, hlink⟩ := List.mem_filter.mp hx
    exact ⟨.step x, hdone x hmem, rfl, (href _ (hdone x hmem)).mpr ⟨x, hmem, rfl, hlink⟩⟩
  · rintro ⟨e', he', rfl, hmem⟩
    obtain ⟨x, hx, rfl, hlink⟩ := (href e' he').mp hmem
    exact ⟨x, List.mem_filter.mpr ⟨hx, hlink⟩, rfl⟩

/-- **A registry whose tags and links go both ways is coherent.** -/
theorem Orderly.coherent {done : List (Ref Step)} (h : Orderly files linked s)
    (hfiles : ∀ file, files file → FeatureFile file) (htags : TagsInverse s)
    (hlinks : LinkedFor done s) : s.Coherent := by
  have hc := h.consistent
  have hstep : ∀ x, .step x ∈ s.depicted → x ∈ s.allSteps := fun x hx =>
    (Store.mem_allSteps hc).mpr ⟨_, (h.placed_depicted hfiles hx).find?⟩
  have hdone : ∀ x ∈ done, .step x ∈ s.depicted := fun x hx =>
    mem_depicted_part (mem_parts_of_running (hlinks.running.subset hx))
  have hids : ∀ p : Ref Step → Bool, ((done.filter p).map fun x => (s.get x).id).Nodup := fun p =>
    (h.wellformed hfiles).nodup_runningSteps.sublist
      ((List.filter_sublist.trans hlinks.running).map _)
  refine ⟨?_, fun e => h.placed_depicted hfiles, h.nodup_depicted hfiles,
    fun e => references_depicted htags hlinks hstep, ?_⟩
  · intro r hr
    obtain ⟨id, hid⟩ := (mem_allFeatures hc).mp hr
    have hfeature := h.placed hid
    rwa [show (s.get r).id = id from hfeature.placed.idOf]
  · intro e he
    simp only [depicted, List.mem_append, List.mem_map] at he
    rcases he with ⟨d, hd, rfl⟩ | ⟨t, ht, rfl⟩ | ⟨t, ht, rfl⟩ | he
    · rw [referrers, hlinks.ofDefinition d hd]
      refine ⟨hids _, mem_linked_iff hdone fun e' he' => mem_references_definition.trans ⟨?_, ?_⟩⟩
      · rintro ⟨x, rfl, hd⟩
        exact ⟨x, (hlinks.definition x (hstep x he') d hd).1, rfl, decide_eq_true hd⟩
      · rintro ⟨x, -, rfl, hd⟩
        exact ⟨x, rfl, of_decide_eq_true hd⟩
    · rw [referrers, hlinks.ofTransform t ht]
      refine ⟨hids _, mem_linked_iff hdone fun e' he' => mem_references_transform.trans ⟨?_, ?_⟩⟩
      · rintro ⟨x, rfl, ht⟩
        exact ⟨x, (hlinks.transform x (hstep x he') t ht).1, rfl, decide_eq_true ht⟩
      · rintro ⟨x, -, rfl, ht⟩
        exact ⟨x, rfl, of_decide_eq_true ht⟩
    · obtain ⟨hnodup, howners⟩ := htags.owners t ht
      refine ⟨hnodup, fun id => (howners id).trans ⟨?_, ?_⟩⟩
      · rintro ⟨e', he', hid, hmem⟩
        exact ⟨e', mem_depicted_part he', hid, mem_references_tag.mpr hmem⟩
      · rintro ⟨e', he', hid, href⟩
        exact ⟨e', mem_parts_of_references he' href, hid, mem_references_tag.mp href⟩
    · obtain ⟨hcontains, hnone⟩ := referrers_eq_nil (s := s) (kind_of_mem_parts he)
      rw [hnone]
      refine ⟨List.nodup_nil, fun id => ⟨fun hmem => absurd hmem List.not_mem_nil, ?_⟩⟩
      rintro ⟨e', -, -, href⟩
      exact absurd hcontains (relation_of_mem_references href).2

end Store

namespace Batch

variable {names : List String} {built : Built} {s : Store}

/-- After a batch tags and what declares them know each other. -/
theorem Accounted.tagsInverse (h : Accounted built s) (hsound : Sound names s)
    (hperm : (built.map (·.1)).Perm s.allFeatures) : TagsInverse s := by
  have hexact := h.tagsExact hsound hperm
  have hplaced := (hsound.orderly.parts fun _ => PlainName.featureFile).1
  refine ⟨fun e he => hexact.held _ e (hplaced e he).find?, fun t ht => ?_⟩
  obtain ⟨hnodup, howners⟩ := hexact.owners t ht
  refine ⟨hnodup, fun id => (howners id).trans ⟨?_, ?_⟩⟩
  · rintro ⟨e, he, hmem⟩
    obtain ⟨p, hp, hdeclarer⟩ := h.listed he.find? hmem
    refine ⟨e, List.mem_flatMap.mpr ⟨p.1, ?_, s.declarers_subset p.1 hdeclarer⟩, he.idOf, hmem⟩
    exact hperm.mem_iff.mp (List.mem_map_of_mem hp)
  · rintro ⟨e, he, rfl, hmem⟩
    exact ⟨e, hplaced e he, hmem⟩

/-- **A batch, with targets under free identifiers and a pass, leaves a coherent registry**, whatever
was passed over and wherever the pass has failed. -/
theorem build_coherent {tree : FileTree} {settings : Settings} {base : Option Path}
    {sources : List Source} {contents : List (Option Value)} {warnings : List Warning}
    {batch : Batch} {w : Work} (hreads : List.Forall₂ Source.Reads sources contents)
    (hplain : ∀ source ∈ sources, PlainPath (knownAs base source.path))
    (hdistinct : (sources.map fun source => (knownAs base source.path).toString).Nodup)
    (hrun : (build tree settings base sources).run { store := {}, warnings } = (.ok batch, w))
    {targets : List Target} (hfree : ∀ target ∈ targets, w.store.catalog.find? target.id = none) :
    ∃ report v done,
      LinkingPass.linkAll.run { w with store := w.store.registerTargets targets } =
        (.ok report, v) ∧
      v.store.Coherent ∧ LinkedFor done v.store ∧
      report.linkedSteps = (done.filter fun x => (v.store.get x).definition.isSome).map fun x =>
        (v.store.get x).id := by
  have hfresh : Fresh [] (List.zipWith (callFor tree settings base) sources contents) :=
    fresh_calls hreads hplain hdistinct
  obtain ⟨built, hall, -⟩ := build_outcomes hreads sound_empty hfresh hrun
  obtain ⟨hsound, -⟩ := sound_empty.outcomes hfresh hall
  have haccounted : Accounted built w.store := accounted_empty.outcomes sound_empty hfresh hall
  have htags : TagsInverse w.store := haccounted.tagsInverse hsound (hall.perm_allFeatures hfresh)
  have hfiles : ∀ file, PlainName file → FeatureFile file := fun _ => PlainName.featureFile
  obtain ⟨horderly, htags⟩ := hsound.orderly.allow.registerTargets htags hfiles targets
    fun target htarget e he => by rw [hfree target htarget] at he; cases he
  obtain ⟨report, v, done, hlink, hrewired, hlinked, hreport⟩ :=
    LinkingPass.linkAll_linkedFor horderly hfiles w.warnings
  have hlinks := hrewired.relinked horderly.consistent horderly.labelled
  exact ⟨report, v, done, hlink, (horderly.relinked hlinks).coherent hfiles
    (htags.relinked horderly hfiles hlinks) hlinked, hlinked, hreport⟩

end Batch

end StepTrace
