import StepTrace.Proofs.Tags.Told

/-!
# Declaring the tags of a node

The tokens that a node declares are those of its tag nodes, in order (`Value.tokens`).  When the tags
of a node are declared on a record that has none yet, each token has a tag, the record gets these
tags, each once, and the tags are told of one declaration for each token and of the record as an
owner (`declareAll_declares`).

`Declared` says this of several nodes and records, and is carried through the build of a document: one
part after the other (`Declared.trans`), with silent operations in between (`Declared.told`).
-/

namespace StepTrace

namespace Value

/-- The token that a tag node declares. -/
def token? (tag : Value) : Option Value :=
  (tag.require "name").toOption

/-- The tokens that a node declares, in order and with repetitions. -/
def tokens (node : Value) : List Value :=
  (node.itemsOf "tags").filterMap token?

variable {node : Value} {key : String}

/-- The tag nodes of a field are those that are declared. -/
theorem itemsOf_of_field {part : Value} {items : List Value} (hfield : node.field key = .ok part)
    (h : (part.orElse (.list [])).elements = .ok items) : node.itemsOf key = items := by
  refine itemsOf_eq ?_
  rw [elementsOf, hfield]
  exact h

end Value

section

variable {α β : Type} {R : α → β → Prop} {xs : List α} {ys : List β}

/-- In lists that match element by element, each element has a partner. -/
theorem exists_right_of_forall₂ (h : List.Forall₂ R xs ys) {x : α} (hx : x ∈ xs) :
    ∃ y ∈ ys, R x y := by
  induction h with
  | nil => cases hx
  | cons hfirst _ ih =>
      rcases List.mem_cons.mp hx with rfl | hx
      · exact ⟨_, List.mem_cons_self .., hfirst⟩
      · obtain ⟨y, hy, hxy⟩ := ih hx
        exact ⟨y, List.mem_cons_of_mem _ hy, hxy⟩

theorem exists_left_of_forall₂ (h : List.Forall₂ R xs ys) {y : β} (hy : y ∈ ys) :
    ∃ x ∈ xs, R x y :=
  exists_right_of_forall₂ h.flip hy

end

namespace Store

/-- The record holds the tag of each token that the node declares, once, and no other tag. -/
structure Declares (s : Store) (node : Value) (e : Entry) : Prop where
  has : s.Has e
  nodup : (s.tagList e).Nodup
  known : ∀ token ∈ node.tokens, ∃ t ∈ s.tagList e, s.IsTagOf token t
  only : ∀ t ∈ s.tagList e, ∃ token ∈ node.tokens, s.IsTagOf token t

/-- Between the stores the tags of the nodes have been declared on the entries, and scenarios have
been counted. -/
structure Declared (hole : Entry → Prop) (nodes : List Value) (entries : List Entry)
    (count : Ref Tag → Int) (s s' : Store) : Prop where
  blocks : List.Forall₂ s'.Declares nodes entries
  told : ∃ a, Told hole a s s' ∧ a.count = count ∧
    List.Forall₂ s'.IsTagOf (nodes.flatMap Value.tokens) a.sited ∧
    ∀ t id, (t, id) ∈ a.owned ↔ ∃ e ∈ entries, s'.idOf e = id ∧ t ∈ s'.tagList e

variable {hole hole' : Entry → Prop} {nodes nodes' : List Value} {entries entries' : List Entry}
variable {count count' : Ref Tag → Int} {a : Account} {s s' s'' : Store} {node : Value} {e : Entry}

/-- What else changes does not matter to a record that keeps its tags, if these stay registered. -/
theorem Declares.same (h : s.Declares node e) (hhas : s.Has e → s'.Has e)
    (hkept : ∀ {token t}, s.IsTagOf token t → s'.IsTagOf token t)
    (hlist : s'.tagList e = s.tagList e) : s'.Declares node e where
  has := hhas h.has
  nodup := by
    rw [hlist]
    exact h.nodup
  known token htoken := by
    obtain ⟨t, ht, his⟩ := h.known token htoken
    rw [hlist]
    exact ⟨t, ht, hkept his⟩
  only t ht := by
    rw [hlist] at ht
    obtain ⟨token, htoken, his⟩ := h.only t ht
    exact ⟨token, htoken, hkept his⟩

theorem forall₂_declares_same (h : List.Forall₂ s.Declares nodes entries)
    (hhas : ∀ {e}, s.Has e → s'.Has e)
    (hkept : ∀ {token t}, s.IsTagOf token t → s'.IsTagOf token t)
    (hlist : ∀ e ∈ entries, s'.tagList e = s.tagList e) : List.Forall₂ s'.Declares nodes entries := by
  induction h with
  | nil => exact .nil
  | cons hfirst _ ih =>
      exact .cons (hfirst.same hhas hkept (hlist _ (List.mem_cons_self ..)))
        (ih fun e he => hlist e (List.mem_cons_of_mem _ he))

theorem has_of_forall₂_declares (h : List.Forall₂ s.Declares nodes entries) :
    ∀ e ∈ entries, s.Has e := by
  induction h with
  | nil => exact nofun
  | cons hfirst _ ih =>
      intro e he
      rcases List.mem_cons.mp he with rfl | he
      · exact hfirst.has
      · exact ih e he

namespace Declared

theorem mono (h : Declared hole nodes entries count s s') (hhole : ∀ e, hole e → hole' e)
    (hcount : ∀ t, count' t = count t) : Declared hole' nodes entries count' s s' := by
  obtain ⟨a, htold, rfl, hrest⟩ := h.told
  obtain rfl : count' = a.count := funext hcount
  exact ⟨h.blocks, a, htold.mono hhole rfl rfl rfl, rfl, hrest⟩

/-- What is silent may come before, and what is set aside may be new. -/
theorem of_new {s₀ : Store} (h : Declared hole nodes entries count s s') (hsilent : Silent s₀ s)
    (hnew : ∀ e, hole e → ¬ s₀.Has e) : Declared hole' nodes entries count s₀ s' := by
  obtain ⟨a, htold, hrest⟩ := h.told
  exact ⟨h.blocks, a, (hsilent.followed htold).of_new hnew, hrest⟩

theorem of_told (h : Told hole { count } s s') : Declared hole [] [] count s s' where
  blocks := .nil
  told := ⟨_, h, rfl, .nil, by simp⟩

theorem refl (s : Store) : Declared hole [] [] 0 s s :=
  .of_told (.refl s)

/-- One declaration after the other, if the records that have been declared on keep their tags. -/
theorem trans_of_tags (h : Declared hole nodes entries count s s')
    (h' : Declared hole' nodes' entries' count' s' s'')
    (hhole : ∀ e, hole' e → s.Has e → hole e) (hlist : ∀ e ∈ entries, s''.tagList e = s'.tagList e) :
    Declared hole (nodes ++ nodes') (entries ++ entries') (count + count') s s'' := by
  obtain ⟨a, htold, rfl, hsited, howned⟩ := h.told
  obtain ⟨a', htold', rfl, hsited', howned'⟩ := h'.told
  have hkept : List.Forall₂ s''.IsTagOf (nodes.flatMap Value.tokens) a.sited :=
    hsited.imp fun _ _ => htold'.isTagOf
  refine ⟨?_, a ++ a', htold.trans htold' hhole, rfl, ?_, ?_⟩
  · exact List.rel_append (forall₂_declares_same h.blocks htold'.has htold'.isTagOf hlist) h'.blocks
  · rw [List.flatMap_append]
    exact List.rel_append hkept hsited'
  · intro t id
    have hsame : (∃ e ∈ entries, s''.idOf e = id ∧ t ∈ s''.tagList e) ↔
        ∃ e ∈ entries, s'.idOf e = id ∧ t ∈ s'.tagList e := by
      refine exists_congr fun e => and_congr_right fun he => ?_
      rw [htold'.idOf (has_of_forall₂_declares h.blocks e he), hlist e he]
    rw [show (a ++ a').owned = a.owned ++ a'.owned from rfl, List.mem_append, howned, howned', ← hsame]
    simp only [List.mem_append, or_and_right, exists_or]

/-- **One declaration after the other.** -/
theorem trans (h : Declared hole nodes entries count s s')
    (h' : Declared hole' nodes' entries' count' s' s'')
    (hhole : ∀ e, hole' e → s.Has e → hole e) (hout : ∀ e ∈ entries, ¬ hole' e) :
    Declared hole (nodes ++ nodes') (entries ++ entries') (count + count') s s'' := by
  obtain ⟨a', htold', -⟩ := h'.told
  exact h.trans_of_tags h' hhole fun e he =>
    htold'.tagList_eq (has_of_forall₂_declares h.blocks e he) (hout e he)

/-- What is told afterwards and is no declaration. -/
theorem counted (h : Declared hole nodes entries count s s')
    (h' : Told hole' { count := count' } s' s'') (hhole : ∀ e, hole' e → s.Has e → hole e)
    (hout : ∀ e ∈ entries, ¬ hole' e) :
    Declared hole nodes entries (count + count') s s'' := by
  have hall := h.trans (.of_told h') hhole hout
  rwa [List.append_nil, List.append_nil] at hall

end Declared

end Store

namespace Build

open Store

variable {s : Store} {e : Entry}

/-! ## Declaring one tag -/

/-- A tag is found, or comes in where nothing was registered. -/
theorem tagOf_finds (s : Store) (token : Value) :
    Ensures (tagOf token) s (fun _ => True) fun entry s' =>
      s'.catalog.find? (tagId token.display) = some entry ∧
        (s' = s ∨ ∃ name, s.catalog.find? (tagId name) = none ∧
          s' = (s.register (Tag.ofToken name)).1 ∧
          entry = .tag (s.register (Tag.ofToken name)).2) := by
  unfold tagOf
  rw [ensures_bind_get]
  split
  · rename_i entry hentry
    exact .pure trivial ⟨hentry, Or.inl rfl⟩
  · rename_i hfree
    split
    · rename_i name
      rw [ensures_bind_register]
      refine .pure trivial ⟨?_, Or.inr ⟨name, hfree, rfl, rfl⟩⟩
      rw [catalog_register]
      exact Catalog.find?_insert_self ..
    · exact .throw trivial

theorem tagList_modifyTags {tags : List (Ref Tag)} (he : s.Has e) (htags : s.tagsOf? e = some tags)
    (f : List (Ref Tag) → List (Ref Tag)) : (s.modifyTags e f).tagList e = f tags := by
  cases e with
  | feature r =>
      cases htags
      exact (congrArg Feature.tags (get_modify_self s r (fun x => { x with tags := f x.tags }) he) :)
  | scenario r =>
      cases htags
      exact (congrArg Scenario.tags (get_modify_self s r (fun x => { x with tags := f x.tags }) he) :)
  | outline r =>
      cases htags
      exact (congrArg Outline.tags (get_modify_self s r (fun x => { x with tags := f x.tags }) he) :)
  | examples r =>
      cases htags
      exact (congrArg Examples.tags (get_modify_self s r (fun x => { x with tags := f x.tags }) he) :)
  | nameSpace | step | tag | definition | transform => cases htags

/-- A record gets the tag at the end of its list, or has it already. -/
theorem tagList_giveTag {tag : Ref Tag} {tags : List (Ref Tag)} (he : s.Has e)
    (htags : s.tagsOf? e = some tags) : (s.giveTag tag e tags).tagList e =
      if tag ∈ tags then tags else tags ++ [tag] := by
  have hlist : s.tagList e = tags := congrArg (Option.getD · []) htags
  unfold giveTag
  by_cases hmem : tag ∈ tags
  · rw [if_pos (List.contains_iff_mem.mpr hmem), if_pos hmem, hlist]
  · rw [if_neg fun h => hmem (List.contains_iff_mem.mp h), if_neg hmem, tagList_modifyTags he htags]

/-- The owner may come first. -/
theorem attach_eq (he : s.Has e) (tag : Ref Tag) (tags : List (Ref Tag)) :
    s.attach tag e tags = (s.giveOwner tag (s.idOf e)).giveTag tag e tags := by
  have hid : (s.giveTag tag e tags).idOf e = s.idOf e := (Retags.giveTag he tag tags).grows.idOf he
  rw [Store.attach, hid]
  unfold giveTag giveOwner
  split
  · rfl
  · cases e with
    | feature r | scenario r | outline r | examples r =>
        change (if s.idOf _ ∈ (s.get tag).owners then _ else _) = _
        split <;> rfl
    | nameSpace | step | tag | definition | transform => rfl

/-- A record gets a tag that knows it as an owner. -/
theorem giveTag_told {tag : Ref Tag} {tags : List (Ref Tag)} (htags : s.tagsOf? e = some tags)
    (howner : s.idOf e ∈ (s.get tag).owners) :
    Told (· = e) { owned := [(tag, s.idOf e)] } s (s.giveTag tag e tags) := by
  have howned : ∀ {t id}, (t, id) ∈ [(tag, s.idOf e)] → id ∈ (s.get t).owners := by
    intro t id h
    cases List.mem_singleton.mp h
    exact howner
  have hnew : ∀ {ts : List (Ref Tag)}, ∀ t ∈ ts ++ [tag],
      t ∈ ts ∨ (t, s.idOf e) ∈ [(tag, s.idOf e)] := by
    intro ts t ht
    refine (List.mem_append.mp ht).imp_right fun ht => ?_
    rw [List.mem_singleton.mp ht]
    exact List.mem_singleton_self _
  unfold giveTag
  split
  · exact .of_same id (fun _ => rfl) (fun _ _ => rfl) (fun _ => rfl) (fun _ => id) id Or.inl
      (fun he ht => Or.inl ⟨he, ht⟩) howned
  · cases e with
    | feature r | scenario r | outline r | examples r =>
        exact .retag s r (fun _ => nofun) (fun _ => rfl) (fun h => absurd rfl h) hnew howned
    | nameSpace | step | tag | definition | transform => cases htags

/-- A record and a tag learn of each other. -/
theorem attach_told {tag : Ref Tag} {tags : List (Ref Tag)} (he : s.Has e)
    (htag : s.Has (.tag tag)) (htags : s.tagsOf? e = some tags) :
    Told (· = e) { owned := [(tag, s.idOf e)] } s (s.attach tag e tags) ∧
      (∀ t, t ∈ (s.attach tag e tags).tagList e ↔ t ∈ s.tagList e ∨ t = tag) ∧
      ((s.tagList e).Nodup → ((s.attach tag e tags).tagList e).Nodup) := by
  rw [attach_eq he]
  set s₁ := s.giveOwner tag (s.idOf e)
  have hgiven : Told untouched { owned := [(tag, s.idOf e)] } s s₁ := Told.giveOwner s htag _
  have hid : s₁.idOf e = s.idOf e := hgiven.idOf he
  have hlist : s₁.tagList e = s.tagList e := hgiven.tagList_eq he id
  have hsome : s.tagList e = tags := congrArg (Option.getD · []) htags
  have htags₁ : s₁.tagsOf? e = some tags := by
    refine Eq.trans ?_ htags
    unfold s₁ Store.giveOwner
    split
    · rfl
    · cases e <;> rfl
  have howner : s₁.idOf e ∈ (s₁.get tag).owners :=
    hgiven.mem_owners.mpr (Or.inr (hid ▸ List.mem_singleton_self _))
  have hgot : (s₁.giveTag tag e tags).tagList e = if tag ∈ tags then tags else tags ++ [tag] :=
    tagList_giveTag (hgiven.has he) htags₁
  refine ⟨?_, fun t => ?_, fun hnodup => ?_⟩
  · -- the tag is told of its owner on both ways; once is enough
    have htold := giveTag_told htags₁ howner
    rw [hid] at htold
    have hboth := (hgiven.mono (fun _ => False.elim) rfl rfl rfl).trans htold fun _ h _ => h
    have hsame : ∀ p, p ∈ [(tag, s.idOf e)] ↔ p ∈ [(tag, s.idOf e)] ++ [(tag, s.idOf e)] :=
      fun _ => or_self_iff.symm.trans List.mem_append.symm
    exact (hboth.owned_congr hsame).mono (fun _ => id) rfl rfl
      (funext fun _ => (Int.add_zero _).symm)
  · rw [hgot, hsome]
    split
    · refine ⟨Or.inl, ?_⟩
      rintro (ht | rfl)
      · exact ht
      · assumption
    · rw [List.mem_append, List.mem_singleton]
  · rw [hsome] at hnodup
    rw [hgot]
    split
    · exact hnodup
    · rename_i hmem
      exact List.nodup_append.mpr ⟨hnodup, List.nodup_singleton _, fun t ht t' ht' heq =>
        hmem (List.mem_singleton.mp ht' ▸ heq ▸ ht)⟩

/-- A tag has been declared on a record. -/
structure TagDeclared (token : Value) (e : Entry) (tag : Ref Tag) (s s' : Store) : Prop where
  isTagOf : s'.IsTagOf token tag
  told : Told (· = e) { sited := [tag], owned := [(tag, s.idOf e)] } s s'
  mem : ∀ t, t ∈ s'.tagList e ↔ t ∈ s.tagList e ∨ t = tag
  nodup : (s.tagList e).Nodup → (s'.tagList e).Nodup

theorem declareTag_told (hs : s.TagsThere) (he : s.Has e) (file : String) (token line : Value) :
    Ensures (declareTag file token (some e) line) s (fun _ => True) fun tag s' =>
      TagDeclared token e tag s s' := by
  rw [declareTag_eq]
  refine .bind (tagOf_finds s token) ?_
  rintro entry s₁ - ⟨hentry, hfound⟩
  split
  · rename_i tag
    refine .bind ((siteLine_keeps s₁ _ line).weaken (fun _ _ => trivial) fun _ _ h _ => h.symm) ?_
    rintro line _ - rfl
    rw [ensures_bind_change]
    set s₂ := s₁.modify tag _ with hs₂
    have hentry₂ : s₂.IsTagOf token tag := by
      rw [IsTagOf, hs₂, catalog_modify, hentry]
    -- a tag that comes in does so with its first place
    have hsite : Told untouched { sited := [tag] } s s₂ := by
      rcases hfound with rfl | ⟨name, hfree, rfl, htag⟩
      · exact Told.addSite s₁ (hs hentry) ⟨file, line⟩
      · cases htag
        exact Told.registerTag s hfree ⟨file, line⟩
    refine ensures_bind_some? trivial ?_
    rintro _ ⟨⟩
    rw [ensures_bind_get]
    refine ensures_bind_some? trivial fun tags htags => ?_
    rw [ensures_bind_modify]
    obtain ⟨hattach, hmem, hnodup⟩ :=
      attach_told (hsite.has he) (hsite.tagsThere hs hentry₂) htags
    rw [hsite.idOf he] at hattach
    rw [hsite.tagList_eq he id] at hmem hnodup
    refine .pure trivial ⟨hattach.isTagOf hentry₂, ?_, hmem, hnodup⟩
    exact ((hsite.mono (fun _ => False.elim) rfl rfl rfl).trans hattach fun _ h _ => h).mono
      (fun _ => id) rfl rfl (funext fun _ => (Int.add_zero _).symm)
  · exact .throw trivial

/-! ## Declaring the tags of a node -/

/-- **The tags of a node are declared on a record that has none.** -/
theorem declareAll_declares (hs : s.TagsThere) (he : s.Has e) (hnone : s.tagList e = []) {node nodes : Value} (hnodes : node.field "tags" = .ok nodes)
    (file : String) :
    Ensures (declareAll file nodes (some e)) s (fun _ => True) fun _ s' =>
      Declared (· = e) [node] [e] 0 s s' := by
  unfold declareAll
  refine ensures_bind_check trivial fun items hitems => ?_
  have htokens : node.tokens = items.filterMap Value.token? := by
    rw [Value.tokens, Value.itemsOf_of_field hnodes hitems]
  -- after some of the tag nodes the account lists a tag for each of their tokens
  refine (Ensures.forM (I := fun _ => True) (fun done s' => ∃ refs,
    Told (· = e) { sited := refs, owned := refs.map (·, s.idOf e) } s s' ∧
    List.Forall₂ s'.IsTagOf (done.filterMap Value.token?) refs ∧
    (∀ t, t ∈ s'.tagList e ↔ t ∈ refs) ∧ (s'.tagList e).Nodup) trivial ?_ ?_).weaken
      (fun _ => id) ?_
  · refine ⟨[], .refl s, .nil, ?_, ?_⟩
    all_goals simp [hnone]
  · rintro done item rest s' - - ⟨refs, htold, hrefs, hmem, hnodup⟩
    unfold declareNode
    refine ensures_bind_check trivial fun location _ => ?_
    refine ensures_bind_check trivial fun token htoken => ?_
    refine ensures_bind_check trivial fun line _ => ?_
    refine .bind (declareTag_told (htold.tagsThere hs) (htold.has he) file token line) ?_
    rintro tag s'' - hdeclared
    refine .pure trivial ⟨refs ++ [tag], ?_, ?_, ?_, hdeclared.nodup hnodup⟩
    · have hstep := hdeclared.told
      rw [htold.idOf he] at hstep
      exact (htold.trans hstep fun _ h _ => h).mono (fun _ => id) rfl (List.map_append ..)
        (funext fun _ => (Int.add_zero _).symm)
    · rw [List.filterMap_append]
      refine List.rel_append (hrefs.imp fun _ _ => hdeclared.told.isTagOf) ?_
      have htoken? : Value.token? item = some token := by
        rw [Value.token?, htoken]
        rfl
      rw [List.filterMap_cons_some htoken?]
      exact .cons hdeclared.isTagOf .nil
    · intro t
      rw [hdeclared.mem, hmem, List.mem_append, List.mem_singleton]
  · rintro _ s' - ⟨refs, htold, hrefs, hmem, hnodup⟩
    rw [← htokens] at hrefs
    refine ⟨.cons ⟨htold.has he, hnodup, fun token htoken => ?_, fun t ht => ?_⟩ .nil, _, htold, rfl,
      by simpa using hrefs, fun t id => ?_⟩
    · obtain ⟨t, ht, his⟩ := exists_right_of_forall₂ hrefs htoken
      exact ⟨t, (hmem t).mpr ht, his⟩
    · obtain ⟨token, htoken, his⟩ := exists_left_of_forall₂ hrefs ((hmem t).mp ht)
      exact ⟨token, htoken, his⟩
    · rw [List.mem_map]
      simp only [Prod.mk.injEq, List.mem_singleton, exists_eq_left, htold.idOf he, hmem]
      constructor
      · rintro ⟨t', ht', rfl, rfl⟩
        exact ⟨rfl, ht'⟩
      · rintro ⟨rfl, ht⟩
        exact ⟨t, ht, rfl, rfl⟩

/-- Nothing else of the record has changed. -/
theorem declareAll_declares_retags (hs : s.TagsThere) (he : s.Has e) (htag : e.kind ≠ .tag)
    (hspace : e.kind ≠ .nameSpace) (hnone : s.tagList e = []) {node nodes : Value}
    (hnodes : node.field "tags" = .ok nodes) (file : String) :
    Ensures (declareAll file nodes (some e)) s (fun _ => True) fun _ s' =>
      Retags e s s' ∧ Declared (· = e) [node] [e] 0 s s' :=
  ((declareAll_retags he htag hspace file nodes).keep.and
    (declareAll_declares hs he hnone hnodes file)).weaken (fun _ _ => trivial)
      fun _ _ _ h => ⟨h.1.1, h.2⟩

/-- The tags of a node are declared on a record that has come in for it without any. -/
theorem declareAll_declares_new {s₀ : Store} (hs : s₀.TagsThere) (hsilent : Silent s₀ s)
    (hnew : ¬ s₀.Has e) (he : s.Has e) (htag : e.kind ≠ .tag) (hspace : e.kind ≠ .nameSpace)
    (hnone : s.tagList e = []) {node nodes : Value} (hnodes : node.field "tags" = .ok nodes)
    (file : String) :
    Ensures (declareAll file nodes (some e)) s (fun _ => True) fun _ s' =>
      Retags e s s' ∧ Declared untouched [node] [e] 0 s₀ s' := by
  refine (declareAll_declares_retags (hsilent.tagsThere hs) he htag hspace hnone hnodes file).weaken
    (fun _ => id) ?_
  rintro _ s' - ⟨hretags, hdeclared⟩
  refine ⟨hretags, hdeclared.of_new hsilent ?_⟩
  rintro _ rfl
  exact hnew

end Build

end StepTrace
