import Mathlib.Algebra.BigOperators.Group.List.Basic
import StepTrace.Proofs.Batch.Integrity
import StepTrace.Proofs.Tags.Documents

/-!
# The accounts of tags over a batch

After any part of a batch the tags account for the documents that have been built so far
(`Accounted`): their tokens are declared where they should be, only what declares a tag has it, and
the owners, places and scenarios of a registered tag are those of these documents.  Each outcome
keeps the accounts: what is built adds to them what its document declares, what is passed over adds
nothing, and what is undone has cut the tags back to what they were (`Accounted.outcome`).
-/

namespace StepTrace

open Store

/-- The nodes of the document of a call that declare tags. -/
def BuildCall.blocks (call : BuildCall) : List Value :=
  call.content.blocks (call.excluded.map stripSigil)

/-- The tokens that the document of a call declares, in order and with repetitions. -/
def BuildCall.tokens (call : BuildCall) : List Value :=
  call.blocks.flatMap Value.tokens

namespace Store

variable {s s' : Store} {r : Ref Feature} {id : String}

/-! ## What declares tags -/

theorem tagList_of_step {e : Entry} (he : e.kind = .step) : s.tagList e = [] := by
  cases e with
  | step => rfl
  | _ => cases he

theorem declarersOf_subset (s : Store) (c : Container) : s.declarersOf c ⊆ s.containerParts c := by
  intro e he
  cases c with
  | scenario x =>
      rw [List.mem_singleton.mp he]
      exact List.mem_cons_self ..
  | outline o =>
      rcases List.mem_cons.mp he with rfl | he
      · exact List.mem_cons_self ..
      · obtain ⟨t, ht, rfl⟩ := List.mem_map.mp he
        exact mem_outlineParts.mpr (.inr (.inr (.inl ⟨t, ht, rfl⟩)))

/-- What declares the tags of a feature is part of it. -/
theorem declarers_subset (s : Store) (r : Ref Feature) : s.declarers r ⊆ s.featureParts r := by
  intro e he
  rcases List.mem_cons.mp he with rfl | he
  · exact List.mem_cons_self ..
  · obtain ⟨c, hc, he⟩ := List.mem_flatMap.mp he
    exact mem_featureParts.mpr (.inr (.inr ⟨c, hc, s.declarersOf_subset c he⟩))

theorem FeaturePlaced.placed_declarers (h : s.FeaturePlaced r id) :
    ∀ e ∈ s.declarers r, s.Placed e (s.idOf e) :=
  fun e he => h.placed_parts e (s.declarers_subset r he)

/-- The types of records that can have tags. -/
theorem kind_of_mem_declarers {e : Entry} (he : e ∈ s.declarers r) :
    e.kind ≠ .tag ∧ e.kind ≠ .nameSpace := by
  rcases List.mem_cons.mp he with rfl | he
  · exact ⟨nofun, nofun⟩
  · obtain ⟨c, -, he⟩ := List.mem_flatMap.mp he
    rcases List.mem_cons.mp he with rfl | he
    · cases c <;> exact ⟨nofun, nofun⟩
    · obtain ⟨table, -, rfl⟩ := List.mem_map.mp he
      exact ⟨nofun, nofun⟩

/-- Only what declares tags matters to the accounts of a feature. -/
theorem declarers_congr (h : ∀ e ∈ s.declarers r, s'.content e = s.content e) :
    s'.declarers r = s.declarers r ∧ (∀ e ∈ s.declarers r, s'.tagList e = s.tagList e) ∧
      ∀ t, s'.carried r t = s.carried r t := by
  have hr : s'.get r = s.get r := Content.feature.inj (h _ (List.mem_cons_self ..))
  have hc : ∀ c ∈ (s.get r).scenarios, s'.content c.entry = s.content c.entry := fun c hc =>
    h _ (List.mem_cons_of_mem _ (List.mem_flatMap.mpr ⟨c, hc, List.mem_cons_self ..⟩))
  refine ⟨?_, fun e he => ?_, fun t => ?_⟩
  · rw [declarers, declarers, hr]
    refine congrArg _ (List.flatMap_congr fun c hmem => ?_)
    rw [declarersOf, declarersOf, tablesOf, tablesOf, hc c hmem]
  · rw [Store.tagList_eq, Store.tagList_eq, h e he]
  · rw [carried, carried, hr]
    split
    · rfl
    · refine congrArg List.sum (List.map_congr_left fun c hmem => ?_)
      rw [runsWith, runsWith, Store.tagList_eq, Store.tagList_eq, hc c hmem,
        length_runs_shape (congrArg Content.shape (hc c hmem))]

/-- A feature that has been built stays as it is. -/
theorem Kept.declarers (h : Kept s s') (hr : s.FeaturePlaced r id) :
    s'.declarers r = s.declarers r ∧ (∀ e ∈ s.declarers r, s'.tagList e = s.tagList e) ∧
      ∀ t, s'.carried r t = s.carried r t := by
  refine declarers_congr fun e he => ?_
  obtain ⟨htag, hspace⟩ := kind_of_mem_declarers he
  exact h.content (hr.placed_declarers e he).has htag hspace

/-- A tag that nothing of a feature has counts no scenario of it. -/
theorem carried_eq_zero {t : Ref Tag} (h : ∀ e ∈ s.declarers r, t ∉ s.tagList e) :
    s.carried r t = 0 := by
  have hr : t ∉ (s.get r).tags := h (.feature r) (List.mem_cons_self ..)
  rw [carried, if_neg hr]
  refine List.sum_eq_zero fun n hn => ?_
  obtain ⟨c, hc, rfl⟩ := List.mem_map.mp hn
  exact if_neg (h _ (List.mem_cons_of_mem _ (List.mem_flatMap.mpr ⟨c, hc, List.mem_cons_self ..⟩)))

end Store

namespace Batch

/-- The features that have been built, with the calls that have built them. -/
abbrev Built := List (Ref Feature × BuildCall)

/-- The tags of a registry account for the documents that have been built. -/
structure Accounted (built : Built) (s : Store) : Prop where
  feature : ∀ p ∈ built, s.catalog.find? p.2.file.toString = some (.feature p.1)
  blocks : ∀ p ∈ built, List.Forall₂ s.Declares p.2.blocks (s.declarers p.1)
  canonical : ∀ {id t}, s.catalog.find? id = some (.tag t) → s.Canonical t
  listed : ∀ {id e t}, s.catalog.find? id = some e → t ∈ s.tagList e →
    ∃ p ∈ built, e ∈ s.declarers p.1
  nodup : ∀ {id t}, s.catalog.find? id = some (.tag t) → (s.get t).owners.Nodup
  owners : ∀ {id t}, s.catalog.find? id = some (.tag t) → ∀ owner, owner ∈ (s.get t).owners ↔
    ∃ p ∈ built, ∃ e ∈ s.declarers p.1, s.idOf e = owner ∧ t ∈ s.tagList e
  total : ∀ {id t}, s.catalog.find? id = some (.tag t) →
    (s.get t).totalScenarios = (built.map fun p => s.carried p.1 t).sum
  sites : ∀ {id t}, s.catalog.find? id = some (.tag t) → (s.get t).sites.length =
    (built.flatMap fun p => p.2.tokens).countP fun token => tagId token.display = id

/-- What has been built in between declares its tags. -/
structure Accrued (more : Built) (s s' : Store) : Prop where
  feature : ∀ p ∈ more, s'.catalog.find? p.2.file.toString = some (.feature p.1)
  blocks : ∀ p ∈ more, List.Forall₂ s'.Declares p.2.blocks (s'.declarers p.1)
  told : ∃ a, Told untouched a s s' ∧ (∀ t, a.count t = (more.map fun p => s'.carried p.1 t).sum) ∧
    List.Forall₂ s'.IsTagOf (more.flatMap fun p => p.2.tokens) a.sited ∧
    ∀ t id, (t, id) ∈ a.owned ↔
      ∃ p ∈ more, ∃ e ∈ s'.declarers p.1, s'.idOf e = id ∧ t ∈ s'.tagList e

variable {names names' : List String} {built more : Built} {s s' : Store}

theorem accounted_empty : Accounted [] {} where
  feature := nofun
  blocks := nofun
  canonical := nofun
  listed := nofun
  nodup := nofun
  owners := nofun
  total := nofun
  sites := nofun

/-- The features of the accounts are placed. -/
theorem Accounted.placed (h : Accounted built s) (hsound : Sound names s) {p : Ref Feature × BuildCall}
    (hp : p ∈ built) : s.FeaturePlaced p.1 p.2.file.toString :=
  hsound.orderly.placed (h.feature p hp)

/-- The tags that a feature of the accounts has are registered. -/
theorem Accounted.registered (h : Accounted built s) {p : Ref Feature × BuildCall} (hp : p ∈ built)
    {e : Entry} (he : e ∈ s.declarers p.1) {t : Ref Tag} (ht : t ∈ s.tagList e) :
    ∃ token ∈ p.2.tokens, s.IsTagOf token t := by
  obtain ⟨node, hnode, hdeclares⟩ := exists_left_of_forall₂ (h.blocks p hp) he
  obtain ⟨token, htoken, his⟩ := hdeclares.only t ht
  exact ⟨token, List.mem_flatMap.mpr ⟨node, hnode, htoken⟩, his⟩

/-! ## One document -/

/-- The features that were there are as they were. -/
theorem Accounted.kept (h : Accounted built s) (hsound : Sound names s) (hkept : Kept s s')
    {p : Ref Feature × BuildCall} (hp : p ∈ built) : s'.declarers p.1 = s.declarers p.1 ∧
      (∀ e ∈ s.declarers p.1, s'.tagList e = s.tagList e) ∧
      (∀ e ∈ s.declarers p.1, s'.idOf e = s.idOf e) ∧ ∀ t, s'.carried p.1 t = s.carried p.1 t := by
  have hplaced := h.placed hsound hp
  obtain ⟨hdeclarers, hlist, hcarried⟩ := hkept.declarers hplaced
  refine ⟨hdeclarers, hlist, fun e he => ?_, hcarried⟩
  obtain ⟨htag, hspace⟩ := kind_of_mem_declarers he
  rw [idOf_eq, idOf_eq, hkept.content (hplaced.placed_declarers e he).has htag hspace]

section

variable {a : Account} {id : String} {t : Ref Tag}

/-- A tag that was not there is on nothing that was built. -/
theorem Accounted.not_mem_tagList (h : Accounted built s) (hsound : Sound names s)
    (hnew : ¬ s.Has (.tag t)) : ∀ p ∈ built, ∀ e ∈ s.declarers p.1, t ∉ s.tagList e := by
  intro p hp e he ht
  obtain ⟨token, -, his⟩ := h.registered hp he ht
  exact hnew (hsound.orderly.labelled his).has

/-- What has a tag was built before or has come in with the account. -/
theorem Accounted.listed_accrued (h : Accounted built s) (hsound : Sound names s)
    (hsound' : Sound names' s') (hkept : Kept s s')
    (hfeature : ∀ p ∈ more, s'.catalog.find? p.2.file.toString = some (.feature p.1))
    (htold : Told untouched a s s') (howned : ∀ t id, (t, id) ∈ a.owned ↔
      ∃ p ∈ more, ∃ e ∈ s'.declarers p.1, s'.idOf e = id ∧ t ∈ s'.tagList e)
    {e : Entry} (he : s'.catalog.find? id = some e) (ht : t ∈ s'.tagList e) :
    ∃ p ∈ built ++ more, e ∈ s'.declarers p.1 := by
  have hid : s'.idOf e = id := (hsound'.orderly.labelled he).idOf
  rcases htold.gained (hsound'.orderly.labelled he).has ht with ⟨hhas, ht⟩ | hnew
  · rcases htold.entered he with hreg | hnew | hstep
    · obtain ⟨p, hp, hmem⟩ := h.listed hreg ht
      refine ⟨p, List.mem_append_left _ hp, ?_⟩
      rwa [(h.kept hsound hkept hp).1]
    · exact absurd hhas hnew
    · rw [tagList_of_step hstep] at ht
      cases ht
  · obtain ⟨p, hp, e', he', hid', -⟩ := (howned t _).mp hnew
    have hfind := ((hsound'.orderly.placed (hfeature p hp)).placed_declarers e' he').find?
    rw [hid', hid, he] at hfind
    cases hfind
    exact ⟨p, List.mem_append_right _ hp, he'⟩

/-- The owners of a tag before, as they are known afterwards. -/
theorem Accounted.owners_before (h : Accounted built s) (hsound : Sound names s) (hkept : Kept s s')
    (htold : Told untouched a s s') (ht : s'.catalog.find? id = some (.tag t)) (owner : String) :
    owner ∈ (s.get t).owners ↔
      ∃ p ∈ built, ∃ e ∈ s'.declarers p.1, s'.idOf e = owner ∧ t ∈ s'.tagList e := by
  have hsame : (∃ p ∈ built, ∃ e ∈ s'.declarers p.1, s'.idOf e = owner ∧ t ∈ s'.tagList e) ↔
      ∃ p ∈ built, ∃ e ∈ s.declarers p.1, s.idOf e = owner ∧ t ∈ s.tagList e := by
    refine exists_congr fun p => and_congr_right fun hp => ?_
    obtain ⟨hdeclarers, hlist, hids, -⟩ := h.kept hsound hkept hp
    rw [hdeclarers]
    refine exists_congr fun e => and_congr_right fun he => ?_
    rw [hids e he, hlist e he]
  rw [hsame]
  rcases htold.isNew ht with hreg | ⟨hnew, -⟩
  · exact h.owners hreg owner
  · rw [Told.get_of_not_has hnew]
    refine ⟨nofun, ?_⟩
    rintro ⟨p, hp, e, he, -, hmem⟩
    exact absurd hmem (h.not_mem_tagList hsound hnew p hp e he)

/-- The scenarios of a tag before, as they are known afterwards. -/
theorem Accounted.total_before (h : Accounted built s) (hsound : Sound names s) (hkept : Kept s s')
    (htold : Told untouched a s s') (ht : s'.catalog.find? id = some (.tag t)) :
    (s.get t).totalScenarios = (built.map fun p => s'.carried p.1 t).sum := by
  rw [List.map_congr_left fun p hp => (h.kept hsound hkept hp).2.2.2 t]
  rcases htold.isNew ht with hreg | ⟨hnew, -⟩
  · exact h.total hreg
  · rw [Told.get_of_not_has hnew]
    refine (List.sum_eq_zero fun n hn => ?_).symm
    obtain ⟨p, hp, rfl⟩ := List.mem_map.mp hn
    exact carried_eq_zero (h.not_mem_tagList hsound hnew p hp)

/-- The places of a tag before, as they are known afterwards. -/
theorem Accounted.sites_before (h : Accounted built s) (hsound : Sound names s)
    (hsound' : Sound names' s') (hkept : Kept s s') (htold : Told untouched a s s')
    (ht : s'.catalog.find? id = some (.tag t)) : (s.get t).sites.length =
      (built.flatMap fun p => p.2.tokens).countP fun token => tagId token.display = id := by
  rcases htold.isNew ht with hreg | ⟨hnew, -⟩
  · exact h.sites hreg
  · rw [Told.get_of_not_has hnew]
    refine (List.countP_eq_zero.mpr fun token htoken heq => hnew ?_).symm
    obtain ⟨p, hp, htoken⟩ := List.mem_flatMap.mp htoken
    obtain ⟨node, hnode, htoken⟩ := List.mem_flatMap.mp htoken
    obtain ⟨e, -, hdeclares⟩ := exists_right_of_forall₂ (h.blocks p hp) hnode
    obtain ⟨t', -, his⟩ := hdeclares.known token htoken
    have hsame := hkept.find? hsound'.orderly.consistent his
    rw [of_decide_eq_true heq, ht] at hsame
    cases hsame
    exact (hsound.orderly.labelled his).has

end

/-- Tokens have the tag if it is registered for them. -/
theorem countP_isTagOf (hlabelled : s.Labelled) {id : String} {t : Ref Tag}
    (ht : s.catalog.find? id = some (.tag t)) {tokens : List Value} {tags : List (Ref Tag)}
    (h : List.Forall₂ s.IsTagOf tokens tags) :
    tags.countP (· = t) = tokens.countP fun token => tagId token.display = id := by
  induction h with
  | nil => rfl
  | @cons token t' _ _ his _ ih =>
      have hiff : t' = t ↔ tagId token.display = id := by
        constructor
        · rintro rfl
          exact (hlabelled his).idOf.symm.trans (hlabelled ht).idOf
        · intro heq
          have hsame : s.catalog.find? (tagId token.display) = some (.tag t') := his
          rw [heq, ht] at hsame
          cases hsame
          rfl
      rw [List.countP_cons, List.countP_cons, ih]
      simp only [hiff]

/-- **What has been built in between adds to the accounts.** -/
theorem Accounted.accrued (h : Accounted built s) (hsound : Sound names s) (hsound' : Sound names' s')
    (hkept : Kept s s') (hmore : Accrued more s s') : Accounted (built ++ more) s' := by
  obtain ⟨a, htold, hcount, hsited, howned⟩ := hmore.told
  have hthere : s.TagsThere := fun id t ht => (hsound.orderly.labelled ht).has
  constructor
  case feature =>
    intro p hp
    rcases List.mem_append.mp hp with hp | hp
    · exact hkept.find? hsound'.orderly.consistent (h.feature p hp)
    · exact hmore.feature p hp
  case blocks =>
    intro p hp
    rcases List.mem_append.mp hp with hp | hp
    · obtain ⟨hdeclarers, hlist, -⟩ := h.kept hsound hkept hp
      rw [hdeclarers]
      exact forall₂_declares_same (h.blocks p hp) htold.has htold.isTagOf hlist
    · exact hmore.blocks p hp
  case canonical =>
    intro id t ht
    rcases htold.isNew ht with hreg | ⟨-, -, hcanonical, -⟩
    · exact htold.canonical (hthere hreg) (h.canonical hreg)
    · exact hcanonical
  case listed =>
    exact h.listed_accrued hsound hsound' hkept hmore.feature htold howned
  case nodup =>
    intro id t ht
    rcases htold.isNew ht with hreg | ⟨hnew, -⟩
    · exact htold.nodup t (h.nodup hreg)
    · refine htold.nodup t ?_
      rw [Told.get_of_not_has hnew]
      exact List.nodup_nil
  case owners =>
    intro id t ht owner
    rw [htold.mem_owners, h.owners_before hsound hkept htold ht, howned]
    simp only [List.mem_append, or_and_right, exists_or]
  case total =>
    intro id t ht
    rw [htold.total, h.total_before hsound hkept htold ht, hcount, List.map_append, List.sum_append]
  case sites =>
    intro id t ht
    rw [htold.sites, h.sites_before hsound hsound' hkept htold ht,
      countP_isTagOf hsound'.orderly.labelled ht hsited, List.flatMap_append, List.countP_append]

/-- **A registry that was restored accounts for what it did.** -/
theorem Accounted.restored (h : Accounted built s) (hsound : Sound names s)
    (hrestored : Restored s s') : Accounted built s' := by
  have hfind := hrestored.find?
  -- what declares tags is registered, and so it is as it was
  have hsame : ∀ {p}, p ∈ built → s'.declarers p.1 = s.declarers p.1 ∧
      (∀ e ∈ s.declarers p.1, s'.content e = s.content e) ∧
      (∀ e ∈ s.declarers p.1, s'.tagList e = s.tagList e) ∧
      ∀ t, s'.carried p.1 t = s.carried p.1 t := by
    intro p hp
    have hcontent : ∀ e ∈ s.declarers p.1, s'.content e = s.content e := fun e he =>
      hrestored.registered ((h.placed hsound hp).placed_declarers e he).find?
    obtain ⟨hdeclarers, hlist, hcarried⟩ := declarers_congr hcontent
    exact ⟨hdeclarers, hcontent, hlist, hcarried⟩
  have htag : ∀ {id t}, s.catalog.find? id = some (.tag t) → s'.get t = s.get t := fun ht =>
    Content.tag.inj (hrestored.registered ht)
  constructor
  case feature =>
    intro p hp
    rw [hfind]
    exact h.feature p hp
  case blocks =>
    intro p hp
    obtain ⟨hdeclarers, -, hlist, -⟩ := hsame hp
    rw [hdeclarers]
    refine forall₂_declares_same (h.blocks p hp) hrestored.has (fun his => ?_) hlist
    exact (hfind _).trans his
  case canonical =>
    intro id t ht
    rw [hfind] at ht
    rw [Canonical, htag ht]
    exact h.canonical ht
  case listed =>
    intro id e t he ht
    rw [hfind] at he
    rw [Store.tagList_eq, hrestored.registered he, ← Store.tagList_eq] at ht
    obtain ⟨p, hp, hmem⟩ := h.listed he ht
    exact ⟨p, hp, (hsame hp).1 ▸ hmem⟩
  case nodup =>
    intro id t ht
    rw [hfind] at ht
    rw [htag ht]
    exact h.nodup ht
  case owners =>
    intro id t ht owner
    rw [hfind] at ht
    rw [htag ht, h.owners ht]
    refine exists_congr fun p => and_congr_right fun hp => ?_
    obtain ⟨hdeclarers, hcontent, hlist, -⟩ := hsame hp
    rw [hdeclarers]
    refine exists_congr fun e => and_congr_right fun he => ?_
    rw [hlist e he, idOf_eq, idOf_eq, hcontent e he]
  case total =>
    intro id t ht
    rw [hfind] at ht
    rw [htag ht, h.total ht]
    exact congrArg List.sum (List.map_congr_left fun p hp => ((hsame hp).2.2.2 t).symm)
  case sites =>
    intro id t ht
    rw [hfind] at ht
    rw [htag ht]
    exact h.sites ht

variable {call : BuildCall} {result : Option (Ref Feature)}

theorem Accrued.of_silent (h : Silent s s') : Accrued [] s s' where
  feature := nofun
  blocks := nofun
  told := ⟨_, h, fun _ => rfl, .nil, by simp⟩

/-- A document that was built adds what it declares. -/
theorem Accrued.of_declared {r : Ref Feature}
    (hfeature : s'.catalog.find? call.file.toString = some (.feature r))
    (h : Declared untouched call.blocks (s'.declarers r) (s'.carried r) s s') :
    Accrued [(r, call)] s s' := by
  obtain ⟨a, htold, hcount, hsited, howned⟩ := h.told
  refine ⟨by simpa using hfeature, by simpa using h.blocks, a, htold, ?_, ?_, ?_⟩
  · simp [hcount]
  · simpa [BuildCall.tokens] using hsited
  · simpa using howned

/-- **One document keeps the accounts.** -/
theorem Accounted.outcome (h : Accounted built s) (hsound : Sound names s)
    (hfile : PlainPath call.file) (hnew : call.file.toString ∉ names)
    (hout : Outcome call s result s') :
    Accounted (built ++ result.toList.map (·, call)) s' := by
  obtain ⟨hsound', hkept, hgains⟩ := hsound.outcome hfile hnew hout
  have hdeclared := (Build.feature_declared hsound.orderly.toSorted (fun _ => PlainName.featureFile)
    hfile call.content call.excluded call.readMe).2
  cases hout with
  | @built r _ hrun =>
      rw [hrun] at hdeclared
      have hfeature := (hgains call.file.toString r).mpr (Or.inr ⟨rfl, rfl⟩)
      exact h.accrued hsound hsound' hkept (.of_declared hfeature (hdeclared _ rfl))
  | passed hrun =>
      rw [hrun] at hdeclared
      exact h.accrued hsound hsound' hkept (.of_silent (hdeclared _ rfl))
  | undone hrestored =>
      rw [Option.toList_none, List.map_nil, List.append_nil]
      exact h.restored hsound hrestored

/-- **A batch keeps the accounts.** -/
theorem Accounted.outcomes {calls : List BuildCall} (h : Accounted built s) (hsound : Sound names s)
    (hfresh : Fresh names calls) (hall : Outcomes calls s more s') :
    Accounted (built ++ more) s' :=
  Outcomes.keeps (fun hsound hfile hnew hout h => h.outcome hsound hfile hnew hout) h hsound hfresh
    hall

end Batch

end StepTrace
