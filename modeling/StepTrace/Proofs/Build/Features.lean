import StepTrace.Proofs.Build.Containers

/-!
# Features and documents

A document that is built, to its end or not, either changes nothing or registers a new feature under
the name of its file, with all that has been built of it in place (`DocumentBuilt`).  If the build
comes to its end the count of scenarios is exact, the namespace lists the feature, and all that was
registered has come in with one child after the other (`Enlarged`).
-/

namespace StepTrace

/-- The registrations of a feature and its parts. -/
def DocumentOf (file id : String) (e : Entry) : Prop :=
  id = file ∧ e.kind = .feature ∨ PartsBelow file id e

namespace Build

open Store

variable {s s' s'' : Store} {r : Ref Feature}

/-! ## Children -/

/-- Children have come in one after the other, backgrounds for the given nodes among them. -/
inductive Enlarged (r : Ref Feature) (s : Store) : List Value → Store → Prop
  | refl : Enlarged r s [] s
  | joined {nodes : List Value} {s' s'' : Store} {c : Container} (h : Enlarged r s nodes s')
      (hbuilt : FeatureBuilt r s' s'') (hc : Joined r c s' s'') : Enlarged r s nodes s''
  | backed {nodes : List Value} {node : Value} {s' s'' : Store} {b : Ref Scenario}
      (h : Enlarged r s nodes s') (hbuilt : FeatureBuilt r s' s'') (hb : Backed r node b s' s'') :
      Enlarged r s (nodes ++ [node]) s''

theorem Enlarged.trans {nodes nodes' : List Value} (h : Enlarged r s nodes s')
    (h' : Enlarged r s' nodes' s'') : Enlarged r s (nodes ++ nodes') s'' := by
  induction h' with
  | refl => rwa [List.append_nil]
  | joined _ hbuilt hc ih => exact .joined ih hbuilt hc
  | backed _ hbuilt hb ih =>
      rw [← List.append_assoc]
      exact .backed ih hbuilt hb

/-- What a builder of children with the given background nodes comes to. -/
def Extends (r : Ref Feature) (nodes : List Value) (s s' : Store) : Prop :=
  (Counted s r → Counted s' r) ∧ Enlarged r s nodes s'

theorem Extends.refl (r : Ref Feature) (s : Store) : Extends r [] s s :=
  ⟨id, .refl⟩

theorem background_extends (h : s.FeaturePlaced r (s.get r).id) (site : Site) (node : Value) :
    Ensures (background site (some r) node) s (FeatureBuilt r s) fun _ s' =>
      Extends r [node] s s' :=
  (background_built h site node).weaken (fun _ => id)
    fun _ _ hbuilt ⟨hcounted, _, hb⟩ => ⟨hcounted, .backed .refl hbuilt hb⟩

theorem joined_extends {s' : Store} (hbuilt : FeatureBuilt r s s')
    (h : (Counted s r → Counted s' r) ∧ ∃ c, Joined r c s s') : Extends r [] s s' :=
  let ⟨hcounted, _, hc⟩ := h
  ⟨hcounted, .joined .refl hbuilt hc⟩

/-- What the children of a feature leave behind adds up. -/
theorem addsUp_built (site : Site) (r : Ref Feature) :
    AddsUp site r (fun s => s.FeaturePlaced r (s.get r).id) (FeatureBuilt r)
      fun backgrounds _ => Extends r backgrounds where
  left h := .refl h
  left_trans h h' := h.trans h'
  nothing _ := .refl r _
  ready _ hbuilt _ := hbuilt.placed_self
  trans := fun _ ⟨hcounted, h⟩ ⟨hcounted', h'⟩ => ⟨fun hr => hcounted' (hcounted hr), h.trans h'⟩
  background h node := background_extends h site node
  outline h node _ := (outline_built h site node).weaken (fun _ => id) fun _ _ => joined_extends
  plainScenario h node _ :=
    (plainScenario_built h site node).weaken (fun _ => id) fun _ _ => joined_extends

theorem children_built (h : s.FeaturePlaced r (s.get r).id) (site : Site) (nodes : List Value) :
    Ensures (children site (some r) nodes) s (FeatureBuilt r s) fun _ s' =>
      Extends r (nodes.flatMap Value.childBackgrounds) s s' :=
  (addsUp_built site r).children h nodes

/-! ## Documents -/

/-- A new feature is registered under the name of the file, and all its parts are placed. -/
structure DocumentBuilt (file : String) (r : Ref Feature) (s s' : Store) : Prop where
  grows : Grows (DocumentOf file) untouched s s'
  isNew : ¬ s.Has (.feature r)
  placed : s'.FeaturePlaced r file

namespace DocumentBuilt

variable {file : String}

theorem register (s : Store) {f : Feature} (hbackground : f.background = none)
    (hscenarios : f.scenarios = []) : DocumentBuilt f.id (s.register f).2 s (s.register f).1 := by
  have hget := get_register_self s f
  refine ⟨.register s fun _ => Or.inl ⟨rfl, rfl⟩, not_has_register_self s f,
    placed_register s f, ?_, ?_⟩
  · rw [hget, hbackground]
    exact nofun
  · rw [hget, hscenarios]
    exact .nil

/-- What grows elsewhere leaves the feature in place. -/
theorem grows_nowhere (h : DocumentBuilt file r s s') (hgrows : Grows nowhere untouched s' s'') :
    DocumentBuilt file r s s'' :=
  ⟨h.grows.trans hgrows (fun _ _ => False.elim) fun _ h _ => h, h.isNew,
    h.placed.grows hgrows (fun _ _ _ => id) (fun _ _ => id) id⟩

theorem retags (h : DocumentBuilt file r s s') (hretags : Retags (.feature r) s' s'') :
    DocumentBuilt file r s s'' := by
  have hframe : { s''.get r with tags := [] } = { s'.get r with tags := [] } :=
    Content.feature.inj hretags.untagged
  have hbackground : (s''.get r).background = (s'.get r).background :=
    (congrArg Feature.background hframe :)
  have hscenarios : (s''.get r).scenarios = (s'.get r).scenarios :=
    (congrArg Feature.scenarios hframe :)
  refine ⟨h.grows.trans hretags.grows (fun _ _ => False.elim) ?_, h.isNew,
    h.placed.placed.grows hretags.grows fun _ => id, ?_, ?_⟩
  · rintro _ rfl hhas
    exact h.isNew hhas
  · rw [hbackground]
    exact h.placed.background.grows hretags.grows (fun _ _ _ => id) (sparesParts_feature r)
  · rw [hscenarios]
    exact h.placed.containers.grows hretags.grows (fun _ _ _ _ _ => id) (sparesParts_feature r)

theorem placed_self (h : DocumentBuilt file r s s') : s'.FeaturePlaced r (s'.get r).id := by
  rw [show (s'.get r).id = file from h.placed.placed.idOf]
  exact h.placed

theorem featureBuilt (h : DocumentBuilt file r s s') (hbuilt : FeatureBuilt r s' s'') :
    DocumentBuilt file r s s'' := by
  obtain ⟨hgrows, hplaced, -⟩ := hbuilt
  rw [show (s'.get r).id = file from h.placed.placed.idOf] at hgrows hplaced
  refine ⟨h.grows.trans hgrows (fun _ _ he => Or.inr he) ?_, h.isNew, hplaced⟩
  rintro _ rfl hhas
  exact h.isNew hhas

end DocumentBuilt

/-- A namespace keeps its features. -/
theorem mem_featureIds_grows {region : String → Entry → Prop} {hole : Entry → Prop}
    {n : Ref Namespace} {id : String} (hgrows : Grows region hole s s')
    (hn : s.Has (.nameSpace n)) (hout : ¬ hole (.nameSpace n)) (hid : id ∈ (s.get n).featureIds) :
    id ∈ (s'.get n).featureIds := by
  obtain ⟨ids, hget⟩ := hgrows.get_nameSpace hn hout
  rw [hget]
  exact List.mem_append_left _ hid

theorem place_ensures (s : Store) (site : Site) (r : Ref Feature) :
    Ensures (place site r) s (Grows nowhere untouched s) fun _ s' =>
      ∃ n, site.nameSpace = .nameSpace n ∧
        (s.Has (.nameSpace n) → (s.get r).id ∈ (s'.get n).featureIds) := by
  unfold place
  split
  · rename_i n hsite
    rw [ensures_bind_read, ensures_bind_read]
    split
    · refine ensures_change ?_ ⟨n, hsite, fun hn => ?_⟩
      · exact .modify (fun _ => rfl) fun _ => .nameSpace _ [(s.get r).id]
      · rw [get_modify_self s n _ hn]
        simp
    · rename_i hmem
      exact .pure (.refl s) ⟨n, hsite, fun _ => not_not.mp hmem⟩
  · exact .throw (.refl s)

theorem addTotals_ensures (s : Store) (total : Int) (tags : List (Ref Tag)) :
    Ensures (tags.forM fun tag => change tag fun t =>
        { t with totalScenarios := t.totalScenarios + total }) s
      (Grows nowhere untouched s) fun _ _ => True := by
  refine .forM (fun _ _ => True) (.refl s) trivial ?_
  intro _ tag _ s' _ h _
  exact ensures_change (h.trans (.addCount s' tag total) (fun _ _ => id) fun _ h _ => h) trivial

/-- A feature has come in without parts, and then, with its children, all parts that have. -/
structure Assembled (r : Ref Feature) (nodes : List Value) (s s₁ s₂ s' : Store) : Prop where
  background : (s₁.get r).background = none
  scenarios : (s₁.get r).scenarios = []
  placed : s₁.FeaturePlaced r (s₁.get r).id
  begun : Grows (fun _ e => e.kind = .feature) untouched s s₁
  children : Enlarged r s₁ nodes s₂
  finished : Grows nowhere untouched s₂ s'

/-- What is left of the build of a document in any case. -/
def DocumentLeft (file : String) (s s' : Store) : Prop :=
  s' = s ∨ ∃ r, DocumentBuilt file r s s'

/-- **A feature that has come in is filled in place, and counted and listed at the end.** -/
theorem fillFeature_built (s : Store) {site : Site} {content node : Value} {f : Feature}
    (hnode : content.field "feature" = .ok node) (hf : ComesIn site s f) :
    Ensures (fillFeature site node (s.register f).2) (s.register f).1
      (fun s' => ∃ r, DocumentBuilt site.file r s s') fun result s' => ∃ r, result = some r ∧
        DocumentBuilt site.file r s s' ∧ Counted s' r ∧
          (s'.get r).namespaceId = f.namespaceId ∧
          (∃ n, site.nameSpace = .nameSpace n ∧
            (s.Has (.nameSpace n) → site.file ∈ (s'.get n).featureIds)) ∧
          ∃ s₁ s₂, Assembled r content.backgrounds s s₁ s₂ s' := by
  obtain ⟨hid, -, -, hbackground, hscenarios, htotal⟩ := hf
  have hleft : ∀ {r s'}, DocumentBuilt site.file r s s' → ∃ r, DocumentBuilt site.file r s s' :=
    fun h => ⟨_, h⟩
  set s₁ := (s.register f).1
  set r := (s.register f).2
  have hget₁ : s₁.get r = f := get_register_self s f
  have hbuilt₁ : DocumentBuilt site.file r s s₁ := hid ▸ .register s hbackground hscenarios
  unfold fillFeature fillPlaced
  refine .bind_of (place_ensures s₁ site r) (fun _ h => hleft (hbuilt₁.grows_nowhere h)) ?_
  rintro _ s₂ hplace ⟨n, hsite, hlisted⟩
  have hbuilt₂ := hbuilt₁.grows_nowhere hplace
  refine ensures_bind_check (hleft hbuilt₂) fun tags _ => ?_
  refine .bind_of (declareAll_retags hbuilt₂.placed.placed.has nofun nofun site.file tags)
    (fun _ h => hleft (hbuilt₂.retags h)) fun _ s₃ hretags _ => ?_
  have hbuilt₃ := hbuilt₂.retags hretags
  -- but for its tags the feature is as it has come in
  have hbare₃ : { s₃.get r with tags := [] } = { f with tags := [] } := by
    rw [Content.feature.inj hretags.untagged, hplace.get_feature hbuilt₁.placed.placed.has id, hget₁]
  have hscenarios₃ : (s₃.get r).scenarios = [] :=
    (congrArg Feature.scenarios hbare₃ :).trans hscenarios
  have hbackground₃ : (s₃.get r).background = none :=
    (congrArg Feature.background hbare₃ :).trans hbackground
  have hcounted₃ : Counted s₃ r :=
    counted_of_empty hscenarios₃ ((congrArg Feature.totalScenarios hbare₃ :).trans htotal)
  refine ensures_bind_check (hleft hbuilt₃) fun nodes hnodes => ?_
  refine .bind_of (children_built hbuilt₃.placed_self site nodes)
    (fun _ h => hleft (hbuilt₃.featureBuilt h)) fun _ s₄ hchildren ⟨hcounted, henlarged⟩ => ?_
  have hbuilt₄ := hbuilt₃.featureBuilt hchildren
  rw [ensures_bind_read]
  refine .bind_of (addTotals_ensures s₄ _ _)
    (fun _ h => hleft (hbuilt₄.grows_nowhere h)) fun _ s₅ htotals _ => ?_
  have hbuilt₅ := hbuilt₄.grows_nowhere htotals
  have hsame₅ : s₅.get r = s₄.get r := htotals.get_feature hbuilt₄.placed.placed.has id
  refine .pure (hleft hbuilt₅) ⟨r, rfl, hbuilt₅, ?_, ?_, ⟨n, hsite, fun hn => ?_⟩, s₃, s₄, ?_⟩
  · have htold : Grows nowhere (· = .feature r) s₄ s₅ := htotals.set_aside
    exact counted_grows hbuilt₄.placed htold (by rw [hsame₅]) (by rw [hsame₅]) (hcounted hcounted₃)
  · rw [hsame₅]
    exact (congrArg Feature.namespaceId hchildren.frame :).trans
      (congrArg Feature.namespaceId hbare₃ :)
  · -- the file is listed when the feature is placed, and stays listed
    have hn₁ : s₁.Has (.nameSpace n) := hbuilt₁.grows.has hn
    have hmem₂ : site.file ∈ (s₂.get n).featureIds := by
      have h := hlisted hn₁
      rwa [hget₁, hid] at h
    have hmem₃ := mem_featureIds_grows hretags.grows (hplace.has hn₁) nofun hmem₂
    have hmem₄ := mem_featureIds_grows hchildren.grows (hbuilt₃.grows.has hn) nofun hmem₃
    exact mem_featureIds_grows htotals (hbuilt₄.grows.has hn) id hmem₄
  · have hregister : Grows (fun _ e => e.kind = .feature) untouched s s₁ := .register s fun _ => rfl
    have hbegun := (hregister.trans hplace (fun _ _ => False.elim) fun _ h _ => h).trans_fresh
      hbuilt₁.isNew hretags.grows fun _ _ => False.elim
    refine ⟨hbackground₃, hscenarios₃, hbuilt₃.placed_self, hbegun, ?_, htotals⟩
    rw [Value.backgrounds, Value.partOf_eq hnode, Value.itemsOf_eq hnodes]
    exact henlarged

/-- **A document that is built leaves its feature in place, counted and listed.** -/
theorem document_built (s : Store) (site : Site) (content : Value) :
    Ensures (document site content) s (DocumentLeft site.file s) fun result s' =>
      match result with
      | none => s' = s
      | some r => DocumentBuilt site.file r s s' ∧ Counted s' r ∧
          (s'.get r).namespaceId = s.idOf site.nameSpace ∧
          (∃ n, site.nameSpace = .nameSpace n ∧
            (s.Has (.nameSpace n) → site.file ∈ (s'.get n).featureIds)) ∧
          ∃ s₁ s₂, Assembled r content.backgrounds s s₁ s₂ s' := by
  have hinit : DocumentLeft site.file s s := Or.inl rfl
  refine ensures_document hinit rfl fun node f hnode _ hf => ?_
  refine Ensures.weaken (fillFeature_built s hnode hf) (fun _ => Or.inr) ?_
  rintro _ s' - ⟨r, rfl, hbuilt, hcounted, hspace, hrest⟩
  exact ⟨hbuilt, hcounted, hspace.trans hf.namespaceId, hrest⟩

/-- Whether the build is refused, passed over or begun is decided before anything is done, and not by
the registry. -/
def Decided {β : Type} (begun : Store → Store → Prop) (x : Entry → Build (Option β)) : Prop :=
  (∃ fault, ∀ e s, (x e).run s = (.error fault, s)) ∨ (∀ e s, (x e).run s = (.ok none, s)) ∨
    ∀ e s, Ensures (x e) s (begun s) fun _ _ => True

theorem Decided.check_bind {α β : Type} {begun : Store → Store → Prop} {result : Except Fault α}
    {f : Entry → α → Build (Option β)}
    (hf : ∀ a, result = .ok a → Decided begun fun e => f e a) :
    Decided begun fun e => check result >>= f e := by
  cases result with
  | ok a => exact hf a rfl
  | error fault => exact Or.inl ⟨fault, fun _ _ => rfl⟩

/-- **Whether a document is refused at its head, passed over or begun does not depend on the
registry**; when it is begun its feature comes in, however the build ends. -/
theorem document_decided (file : String) (excluded : List String) (content : Value) :
    Decided (fun s s' => ∃ r, DocumentBuilt file r s s')
      fun e => document ⟨file, excluded, e⟩ content := by
  unfold document
  dsimp only
  refine .check_bind fun node hnode => ?_
  split
  · exact Or.inr (Or.inl fun _ _ => rfl)
  refine .check_bind fun isExcluded _ => ?_
  split
  · exact Or.inr (Or.inl fun _ _ => rfl)
  refine .check_bind fun keyword _ => .check_bind fun title _ => .check_bind fun location _ => ?_
  refine .check_bind fun description _ => .check_bind fun comments _ => Or.inr (Or.inr fun e s => ?_)
  rw [ensures_bind_get, ensures_bind_register]
  exact Ensures.weaken (fillFeature_built s hnode ⟨rfl, rfl, rfl, rfl, rfl, rfl⟩) (fun _ => id)
    fun _ _ _ _ => trivial

end Build

end StepTrace
