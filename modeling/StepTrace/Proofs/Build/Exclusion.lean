import StepTrace.Proofs.Build.Changes

/-!
# Excluding by tag

Excluding by tag is the same as never having written the excluded parts: the build of a document
with excluded names does what the build without them does with the pruned document
(`feature_prune`), and no tag of an excluded name comes in.

* A scenario node is pruned of its excluded examples, a list of children of its excluded scenarios,
  also those in rules (`Value.prune`).
* The builders of a node that is kept do the same with and without the excluded names
  (`scenario_of_kept`, `examples_of_kept`), those of the other nodes do nothing.
* So a loop over the nodes is a loop over the kept ones (`forM_sift`).
-/

namespace StepTrace

namespace Value

/-! ## Changing a document -/

/-- The value with what is under a key changed. -/
def mapField (key : String) (f : Value → Value) : Value → Value
  | map fields =>
    map (fields.map fun field => if field.1.isText key then (field.1, f field.2) else field)
  | v => v

/-- A list with only the kept items, each of them changed. -/
def sift (keep : Value → Bool) (f : Value → Value) : Value → Value
  | list items => list ((items.filter keep).map f)
  | v => v

variable {key other : String} {f : Value → Value}

theorem isPresent_mapField (v : Value) : (v.mapField key f).isPresent = v.isPresent := by
  cases v with
  | map fields => cases fields <;> rfl
  | _ => rfl

/-- The field that was changed; a missing one is still missing. -/
theorem field_mapField_self (v : Value) (hnull : f .null = .null) :
    (v.mapField key f).field key = (v.field key).map f := by
  cases v with
  | map fields =>
      simp only [mapField, field, lookup?, Except.map]
      congr 1
      induction fields with
      | nil => exact hnull.symm
      | cons head fields ih =>
          cases hhead : head.1.isText key
          · simpa [findField?, hhead] using ih
          · simp [findField?, hhead]
  | _ => rfl

theorem field_mapField_of_ne (v : Value) (h : other ≠ key) (default : Value) :
    (v.mapField key f).field other default = v.field other default := by
  cases v with
  | map fields =>
      simp only [mapField, field, lookup?]
      congr 2
      induction fields with
      | nil => rfl
      | cons head fields ih =>
          cases hother : head.1.isText other with
          | true =>
              have hkey : head.1.isText key = false := by
                rw [isText_iff.mp hother]
                simpa [isText] using h
              simp [findField?, hother, hkey]
          | false =>
              cases hkey : head.1.isText key <;> simpa [findField?, hother, hkey] using ih
  | _ => rfl

/-! ## Excluded parts -/

/-- The name that a tag node gives, if it gives a text. -/
def tagName? (tag : Value) : Option String :=
  match tag.require "name" with
  | .ok (.text name) => some name
  | _ => none

/-- Has the node a tag of one of the names, its sigil left out? -/
def hasTagOf (names : List String) (node : Value) : Bool :=
  match node.field "tags" with
  | .ok (.list tags) => (tags.filterMap tagName?).any fun token => stripSigil token ∈ names
  | _ => false

/-- Has the child no scenario with a tag of one of the names? -/
def isKept (names : List String) (child : Value) : Bool :=
  match child.field "scenario" with
  | .ok node => !node.hasTagOf names
  | .error _ => true

/-- A scenario node without the examples that have a tag of one of the names. -/
def pruneScenario (names : List String) : Value → Value :=
  mapField "examples" (sift (fun table => !table.hasTagOf names) id)

/-- A child of a rule with its scenario pruned. -/
def pruneRuleChild (names : List String) : Value → Value :=
  mapField "scenario" (pruneScenario names)

/-- A rule without the scenarios that have a tag of one of the names, the others pruned. -/
def pruneRule (names : List String) : Value → Value :=
  mapField "children" (sift (isKept names) (pruneRuleChild names))

/-- A child of a feature with its scenario or its rule pruned. -/
def pruneChild (names : List String) (child : Value) : Value :=
  (pruneRuleChild names child).mapField "rule" (pruneRule names)

/-- A feature node without the scenarios that have a tag of one of the names, the others and the
rules pruned. -/
def pruneFeature (names : List String) : Value → Value :=
  mapField "children" (sift (isKept names) (pruneChild names))

/-- **The document without the scenarios and examples that have a tag of one of the names.** -/
def prune (names : List String) : Value → Value :=
  mapField "feature" (pruneFeature names)

/-! ## Well-formed documents -/

/-- Does every item of the value, if it counts as present, pass?  It has to be a list then. -/
def allItems (pass : Value → Bool) (v : Value) : Bool :=
  !v.isPresent ||
    match v with
    | list items => items.all pass
    | _ => false

/-- Does the field, if there is one, pass? -/
def fieldPasses (key : String) (pass : Value → Bool) (v : Value) : Bool :=
  match v.field key with
  | .ok part => pass part
  | .error _ => true

/-- Are the tags of the node a list of tag nodes with texts as names? -/
def tagsNamed : Value → Bool :=
  fieldPasses "tags" (allItems fun tag => tag.tagName?.isSome)

/-- Are the tags of a scenario node and of its examples named, and does an example stay if there is
one and the scenario itself stays? -/
def scenarioFormed (names : List String) (node : Value) : Bool :=
  node.tagsNamed && node.fieldPasses "examples" fun tables =>
    tables.allItems tagsNamed &&
      (!tables.isPresent || node.hasTagOf names ||
        (tables.sift (fun table => !table.hasTagOf names) id).isPresent)

/-- Is the child of one kind, and its scenario, if it is one, well-formed? -/
def ruleChildFormed (names : List String) (child : Value) : Bool :=
  (child.fieldPasses "background" (fun part => !part.isPresent) ||
    child.fieldPasses "scenario" fun part => !part.isPresent) &&
      child.fieldPasses "scenario" (scenarioFormed names)

/-- Is the child well-formed, and its children, if it is a rule? -/
def childFormed (names : List String) (child : Value) : Bool :=
  child.ruleChildFormed names &&
    child.fieldPasses "rule" (fieldPasses "children" (allItems (ruleChildFormed names)))

/-- Is the document well-formed, with a feature that is not excluded? -/
def documentFormed (names : List String) : Value → Bool :=
  fieldPasses "feature" fun node => node.tagsNamed && !node.hasTagOf names &&
    node.fieldPasses "children" (allItems (childFormed names))

end Value

namespace Build

open Value

variable {site : Site} {node v : Value} {names : List String}

/-! ## Which nodes are passed over -/

theorem mapM_tagNodeName {tags : List Value} (h : ∀ tag ∈ tags, tag.tagName?.isSome = true) :
    tags.mapM tagNodeName = .ok (tags.filterMap tagName?) := by
  induction tags with
  | nil => rfl
  | cons tag tags ih =>
      have htag := h tag (List.mem_cons_self ..)
      have hrest := ih fun tag htag => h tag (List.mem_cons_of_mem _ htag)
      rw [List.mapM_cons, hrest]
      cases hname : tag.require "name" with
      | error fault => simp [tagName?, hname] at htag
      | ok name =>
          cases name
          case text name =>
            have htagName : tag.tagName? = some name := by simp [tagName?, hname]
            simp [tagNodeName, hname, htagName, bind, Except.bind, pure, Except.pure]
          all_goals simp [tagName?, hname] at htag

theorem hasTagOf_nil (node : Value) : node.hasTagOf [] = false := by
  simp only [hasTagOf]
  split
  · exact List.any_eq_false.mpr fun token _ => by simp
  · rfl

/-- With named tags the test for excluded names says what it should. -/
theorem declaresExcluded_eq (h : node.tagsNamed = true) (names : List String) :
    (do declaresExcluded names (← node.field "tags")) =
      (node.field "tags").map fun _ => node.hasTagOf names := by
  simp only [tagsNamed, fieldPasses] at h
  cases hnodes : node.field "tags" with
  | error fault => rfl
  | ok nodes =>
      rw [hnodes] at h
      change declaresExcluded names nodes = .ok (node.hasTagOf names)
      cases hpresent : nodes.isPresent with
      | false =>
          have hnone : node.hasTagOf names = false := by
            simp only [hasTagOf, hnodes]
            split
            · rename_i tags htags
              obtain rfl : nodes = .list tags := Except.ok.inj htags
              obtain rfl : tags = [] := by simpa [isPresent] using hpresent
              rfl
            · rfl
          simp [declaresExcluded, hpresent, hnone, pure, Except.pure]
      | true =>
          simp only [allItems, hpresent, Bool.not_true, Bool.false_or] at h
          cases nodes <;> try cases h
          rename_i tags
          have htags := mapM_tagNodeName (List.all_eq_true.mp h)
          cases names with
          | nil =>
              rw [hasTagOf_nil, declaresExcluded, List.isEmpty_nil, Bool.or_true]
              rfl
          | cons name names =>
              simp only [declaresExcluded, hpresent, Bool.not_true, List.isEmpty_cons,
                Bool.or_self, Bool.false_eq_true, if_false, elements, htags, hasTagOf, hnodes,
                bind, Except.bind, pure, Except.pure]
              congr 1
              rw [Bool.eq_iff_iff]
              simp only [List.any_eq_true, decide_eq_true_eq, List.mem_map]
              constructor
              · rintro ⟨_, hname, token, htoken, heq⟩
                exact ⟨token, htoken, heq ▸ hname⟩
              · rintro ⟨token, htoken, hname⟩
                exact ⟨_, hname, token, htoken, rfl⟩

/-- What is done with a node unless it is excluded. -/
def unlessExcluded {α : Type} (names : List String) (node : Value) (a : α) (x : Build α) :
    Build α := do
  if ← check (do declaresExcluded names (← node.field "tags")) then return a
  x

theorem unlessExcluded_of_kept {α : Type} {a : α} {x : Build α} (h : node.tagsNamed = true)
    (hkeep : node.hasTagOf names = false) :
    unlessExcluded names node a x = unlessExcluded [] node a x := by
  simp only [unlessExcluded, declaresExcluded_eq h, hkeep, hasTagOf_nil]

theorem unlessExcluded_of_excluded {α : Type} {a : α} {x : Build α} (h : node.tagsNamed = true)
    (hexcluded : node.hasTagOf names = true) : unlessExcluded names node a x = pure a := by
  have hnodes : ∃ nodes, node.field "tags" = .ok nodes := by
    simp only [hasTagOf] at hexcluded
    split at hexcluded
    · exact ⟨_, by assumption⟩
    · cases hexcluded
  obtain ⟨nodes, hnodes⟩ := hnodes
  rw [unlessExcluded, declaresExcluded_eq h, hexcluded, hnodes]
  rfl

/-! ## Loops over kept nodes -/

/-- A loop that passes over some elements is a loop over the others. -/
theorem forM_sift {α : Type} {xs : List α} {f g : α → Build Unit} {keep : α → Bool} {h : α → α}
    (hf : ∀ x ∈ xs, f x = if keep x then g (h x) else pure ()) :
    xs.forM f = ((xs.filter keep).map h).forM g := by
  induction xs with
  | nil => rfl
  | cons x xs ih =>
      have hx := hf x (List.mem_cons_self ..)
      have hxs := ih fun y hy => hf y (List.mem_cons_of_mem _ hy)
      change (f x >>= fun _ => xs.forM f) = _
      rw [hx, hxs]
      cases hkeep : keep x with
      | true =>
          rw [List.filter_cons_of_pos hkeep]
          rfl
      | false =>
          rw [List.filter_cons_of_neg (by simp [hkeep])]
          exact pure_bind _ _

theorem isPresent_sift_of_absent {keep : Value → Bool} {h : Value → Value}
    (hv : v.isPresent = false) : (v.sift keep h).isPresent = false := by
  cases v with
  | list items =>
      obtain rfl : items = [] := by simpa [isPresent] using hv
      rfl
  | _ => exact hv

/-- The items of a list, of which there are none if the value does not count as present, and those
that are left when it is sifted. -/
theorem elements_sift {pass keep : Value → Bool} {h : Value → Value}
    (hv : v.allItems pass = true) : ∃ items, (v.orElse (.list [])).elements = .ok items ∧
      ((v.sift keep h).orElse (.list [])).elements = .ok ((items.filter keep).map h) ∧
      ∀ item ∈ items, pass item = true := by
  have hlist : ∀ items, (list items).orElse (.list []) = .list items := by
    rintro (_ | _) <;> rfl
  cases hpresent : v.isPresent with
  | false =>
      refine ⟨[], by rw [orElse, hpresent]; rfl, ?_, nofun⟩
      rw [orElse, isPresent_sift_of_absent hpresent]
      rfl
  | true =>
      simp only [allItems, hpresent, Bool.not_true, Bool.false_or] at hv
      cases v <;> try cases hv
      rename_i items
      refine ⟨items, by rw [hlist]; rfl, ?_, List.all_eq_true.mp hv⟩
      rw [sift, hlist]
      rfl

/-- A loop over what a field lists is a loop over what is left of it. -/
theorem forElements_sift {key : String} {pass keep : Value → Bool} {h : Value → Value}
    {f g : Value → Build Unit} (hnode : node.fieldPasses key (allItems pass) = true)
    (hf : ∀ item, pass item = true → f item = if keep item then g (h item) else pure ()) :
    (do (← check (node.elementsOf key)).forM f) =
      (do (← check ((node.mapField key (sift keep h)).elementsOf key)).forM g) := by
  simp only [elementsOf, field_mapField_self node (show sift keep h .null = .null from rfl)]
  simp only [fieldPasses] at hnode
  cases hv : node.field key with
  | error fault => rfl
  | ok v =>
      rw [hv] at hnode
      obtain ⟨items, hitems, hsift, hpass⟩ := elements_sift (h := h) hnode
      change (do (← check (v.orElse (.list [])).elements).forM f) =
        (do (← check ((v.sift keep h).orElse (.list [])).elements).forM g)
      rw [hitems, hsift]
      exact forM_sift fun item hitem => hf item (hpass item hitem)

/-! ## The builders with and without excluded names -/

/-- The site with nothing to exclude. -/
def including (site : Site) : Site :=
  { site with excluded := [] }

/-- An examples table is built as if nothing were excluded, or not at all. -/
theorem examples_kept (outline : Ref Outline) (h : node.tagsNamed = true) :
    examples site outline node =
      if !node.hasTagOf site.excluded then examples (including site) outline node else pure () := by
  rw [examples_eq, examples_eq]
  cases hkeep : node.hasTagOf site.excluded with
  | false => exact unlessExcluded_of_kept h hkeep
  | true => exact unlessExcluded_of_excluded h hkeep

section

variable {key other : String} {f : Value → Value}

theorem elementsOf_mapField_of_ne (h : other ≠ key) :
    (node.mapField key f).elementsOf other = node.elementsOf other := by
  rw [elementsOf, elementsOf, field_mapField_of_ne node h]

theorem optionalField_mapField_of_ne (h : other ≠ key) :
    optionalField (node.mapField key f) other = optionalField node other := by
  rw [optionalField, optionalField, field_mapField_of_ne node h]

theorem locationOf_mapField_of_ne (h : "location" ≠ key) (file : String) :
    locationOf (node.mapField key f) file = locationOf node file := by
  rw [locationOf, locationOf, field_mapField_of_ne node h]

theorem steps_mapField_of_ne (h : "steps" ≠ key) (c : Container) :
    steps (including site) (node.mapField key f) c = steps site node c := by
  rw [steps, steps, elementsOf_mapField_of_ne h]
  rfl

end

/-- An outline is built as it is without its excluded examples. -/
theorem outline_pruned (feature : Ref Feature)
    (h : node.fieldPasses "examples" (allItems tagsNamed) = true) :
    outline site feature node =
      outline (including site) feature (node.pruneScenario site.excluded) := by
  have hkept (r : Ref Outline) (table : Value) (htable : table.tagsNamed = true) :
      examples site r table = if !table.hasTagOf site.excluded then
        examples (including site) r (id table) else pure () := examples_kept r htable
  have htables (r : Ref Outline) := forElements_sift h (hkept r)
  simp only [outline, pruneScenario, field_mapField_of_ne, optionalField_mapField_of_ne,
    locationOf_mapField_of_ne, steps_mapField_of_ne, ne_eq, String.reduceEq, not_false_eq_true]
  refine bind_congr fun f => bind_congr fun _ => bind_congr fun _ => bind_congr fun _ => ?_
  refine bind_congr fun _ => bind_congr fun r => bind_congr fun _ => bind_congr fun _ => ?_
  refine bind_congr fun _ => ?_
  rw [← bind_assoc, htables r, bind_assoc]

theorem plainScenario_pruned (feature : Ref Feature) :
    plainScenario site feature node =
      plainScenario (including site) feature (node.pruneScenario names) := by
  simp only [plainScenario, pruneScenario, field_mapField_of_ne, optionalField_mapField_of_ne,
    locationOf_mapField_of_ne, steps_mapField_of_ne, ne_eq, String.reduceEq, not_false_eq_true]
  rfl

theorem bind_check_error {α β γ : Type} {fault : Fault} {f : α → Build γ} {g : β → Build γ} :
    check (.error fault) >>= f = check (.error fault) >>= g :=
  rfl

theorem bind_check_ok {α β : Type} {a : α} {f : α → Build β} : check (.ok a) >>= f = f a :=
  rfl

theorem scenario_eq (site : Site) (feature : Option (Ref Feature)) (node : Value) :
    scenario site feature node = unlessExcluded site.excluded node () (do
      if (← check (node.field "examples")).isPresent then
        outline site (← requireFeature feature) node
      else plainScenario site (← requireFeature feature) node) :=
  rfl

/-- **A scenario is built as if it were pruned and nothing were excluded, or not at all.** -/
theorem scenario_kept (feature : Option (Ref Feature))
    (h : node.scenarioFormed site.excluded = true) :
    scenario site feature node =
      if !node.hasTagOf site.excluded then
        scenario (including site) feature (node.pruneScenario site.excluded)
      else pure () := by
  simp only [scenarioFormed, Bool.and_eq_true] at h
  obtain ⟨htags, htables⟩ := h
  rw [scenario_eq, scenario_eq]
  cases hkeep : node.hasTagOf site.excluded with
  | true =>
      rw [unlessExcluded_of_excluded htags hkeep]
      rfl
  | false =>
      rw [unlessExcluded_of_kept htags hkeep, Bool.not_false, if_pos rfl]
      have hfield : (node.pruneScenario site.excluded).field "tags" = node.field "tags" :=
        field_mapField_of_ne node (by decide) _
      have hexamples : (node.pruneScenario site.excluded).field "examples" =
          (node.field "examples").map (sift (fun table => !table.hasTagOf site.excluded) id) :=
        field_mapField_self node rfl
      simp only [unlessExcluded, hfield, hexamples, show (including site).excluded = [] from rfl]
      refine bind_congr fun _ => ?_
      simp only [fieldPasses] at htables
      cases hfound : node.field "examples" with
      | error fault => exact congrArg (ite _ (pure ())) bind_check_error
      | ok tables =>
          rw [hfound] at htables
          simp only [hkeep, Bool.or_false, Bool.and_eq_true] at htables
          -- an outline stays an outline, since one of its examples stays
          have hpresent : (tables.sift (fun table => !table.hasTagOf site.excluded) id).isPresent =
              tables.isPresent := by
            cases htables' : tables.isPresent with
            | true => simpa [htables'] using htables.2
            | false => exact isPresent_sift_of_absent htables'
          have hnode : node.fieldPasses "examples" (allItems tagsNamed) = true := by
            simp only [fieldPasses, hfound]
            exact htables.1
          have houtline (r : Ref Feature) : outline site r node = _ := outline_pruned r hnode
          have hplain (r : Ref Feature) : plainScenario site r node =
              plainScenario (including site) r (node.pruneScenario site.excluded) :=
            plainScenario_pruned r
          simp only [Except.map, bind_check_ok, hpresent, houtline, hplain]

theorem field_cases (v : Value) : (∀ key, v.field key = .error .missingField) ∨
    ∀ key, ∃ part, v.field key = .ok part := by
  cases v with
  | map fields => exact .inr fun key => ⟨_, rfl⟩
  | _ => exact .inl fun key => rfl

/-- What does not count as present has no tags. -/
theorem hasTagOf_of_absent (h : v.isPresent = false) : v.hasTagOf names = false := by
  cases v with
  | map fields =>
      obtain rfl : fields = [] := by simpa [isPresent] using h
      rfl
  | _ => rfl

/-- What a child does that is no background. -/
theorem scenario_child_kept (feature : Option (Ref Feature)) {part : Value} {other other' : Build Unit}
    (hpart : part.scenarioFormed site.excluded = true)
    (hother : part.isPresent = false → other = other') :
    (if part.isPresent then scenario site feature part else other) =
      if !part.hasTagOf site.excluded then
        if (part.pruneScenario site.excluded).isPresent then
          scenario (including site) feature (part.pruneScenario site.excluded)
        else other'
      else pure () := by
  rw [pruneScenario, isPresent_mapField, ← pruneScenario]
  cases hpresent : part.isPresent with
  | false =>
      rw [hasTagOf_of_absent hpresent]
      exact hother hpresent
  | true =>
      rw [if_pos rfl, if_pos rfl]
      exact scenario_kept feature hpart

/-- **A child of a rule is built as if it were pruned and nothing were excluded, or not at all.** -/
theorem ruleChild_kept (feature : Option (Ref Feature))
    (h : node.ruleChildFormed site.excluded = true) :
    ruleChild site feature node =
      if node.isKept site.excluded then
        ruleChild (including site) feature (node.pruneRuleChild site.excluded)
      else pure () := by
  have hbackground : (node.pruneRuleChild site.excluded).field "background" =
      node.field "background" := field_mapField_of_ne node (by decide) _
  have hscenario : (node.pruneRuleChild site.excluded).field "scenario" =
      (node.field "scenario").map (pruneScenario site.excluded) := field_mapField_self node rfl
  unfold ruleChild
  rw [hbackground, hscenario]
  rcases field_cases node with hnone | hsome
  · rw [isKept, hnone, hnone, if_pos rfl]
    exact bind_check_error
  · obtain ⟨backgroundNode, hb⟩ := hsome "background"
    obtain ⟨part, hpart⟩ := hsome "scenario"
    simp only [ruleChildFormed, fieldPasses, hb, hpart, Bool.and_eq_true, Bool.or_eq_true] at h
    obtain ⟨hkind, hformed⟩ := h
    simp only [isKept, hb, hpart, Except.map, bind_check_ok]
    cases hpresent : backgroundNode.isPresent with
    | true =>
        have habsent : part.isPresent = false := by simpa [hpresent] using hkind
        rw [hasTagOf_of_absent habsent]
        rfl
    | false => exact scenario_child_kept feature hformed fun _ => rfl

/-- **A child of a feature is built as if it were pruned and nothing were excluded, or not at
all.** -/
theorem child_kept (feature : Option (Ref Feature)) (h : node.childFormed site.excluded = true) :
    child site feature node =
      if node.isKept site.excluded then
        child (including site) feature (node.pruneChild site.excluded)
      else pure () := by
  have hbackground : (node.pruneChild site.excluded).field "background" =
      node.field "background" := by
    rw [pruneChild, field_mapField_of_ne _ (by decide), pruneRuleChild,
      field_mapField_of_ne _ (by decide)]
  have hscenario : (node.pruneChild site.excluded).field "scenario" =
      (node.field "scenario").map (pruneScenario site.excluded) := by
    rw [pruneChild, field_mapField_of_ne _ (by decide), pruneRuleChild, field_mapField_self _ rfl]
  have hrule : (node.pruneChild site.excluded).field "rule" =
      (node.field "rule").map (pruneRule site.excluded) := by
    rw [pruneChild, field_mapField_self _ rfl, pruneRuleChild, field_mapField_of_ne _ (by decide)]
  unfold child
  rw [hbackground, hscenario, hrule]
  rcases field_cases node with hnone | hsome
  · rw [isKept, hnone, hnone, if_pos rfl]
    exact bind_check_error
  · obtain ⟨backgroundNode, hb⟩ := hsome "background"
    obtain ⟨part, hpart⟩ := hsome "scenario"
    obtain ⟨rule, hr⟩ := hsome "rule"
    simp only [childFormed, ruleChildFormed, fieldPasses, hb, hpart, hr, Bool.and_eq_true,
      Bool.or_eq_true] at h
    obtain ⟨⟨hkind, hformed⟩, hchildren⟩ := h
    simp only [isKept, hb, hpart, hr, Except.map, bind_check_ok]
    cases hpresent : backgroundNode.isPresent with
    | true =>
        have habsent : part.isPresent = false := by simpa [hpresent] using hkind
        rw [hasTagOf_of_absent habsent]
        rfl
    | false =>
        refine scenario_child_kept feature hformed fun _ => ?_
        have hkept (item : Value) (hitem : item.ruleChildFormed site.excluded = true) :
            ruleChild site feature item = _ := ruleChild_kept feature hitem
        have hloop := forElements_sift hchildren hkept
        rw [pruneRule, isPresent_mapField, hloop]

/-- The children of a feature are built as if they were pruned and nothing were excluded. -/
theorem children_pruned (feature : Option (Ref Feature))
    (h : node.fieldPasses "children" (allItems (childFormed site.excluded)) = true) :
    (check (node.elementsOf "children") >>= children site feature) =
      check ((node.pruneFeature site.excluded).elementsOf "children") >>=
        children (including site) feature :=
  forElements_sift h fun _ hitem => child_kept feature hitem

/-! ## Documents -/

/-- Builds a feature of a node that is there and not excluded. -/
def makeFeature (site : Site) (content node : Value) : Build (Option (Ref Feature)) := do
  let r ← register {
    id := site.file
    name := featureName site.file
    keyword := ← check (node.field "keyword" (.text ""))
    title := ← check (optionalField node "name")
    location := ← check (locationOf node site.file)
    description := ← check (optionalField node "description")
    comments := ← check (commentsOf content)
    namespaceId := (← get).idOf site.nameSpace : Feature }
  place site r
  declareAll site.file (← check (node.field "tags")) (some (.feature r))
  children site (some r) (← check (node.elementsOf "children"))
  let f ← read r
  f.tags.forM fun tag => change tag fun t =>
    { t with totalScenarios := t.totalScenarios + f.totalScenarios }
  return some r

theorem document_eq (site : Site) (content : Value) :
    document site content = (do
      let node ← check (content.field "feature")
      if !node.isPresent then return none
      unlessExcluded site.excluded node none (makeFeature site content node)) :=
  rfl

/-- Of a document only the comments and the feature are read, and nothing matters of the children of
the feature but what is built of them. -/
theorem makeFeature_congr {content content' : Value} {excluded : List String}
    {f : Value → Value} (hcomments : commentsOf content' = commentsOf content)
    (hchildren : ∀ r, (check (node.elementsOf "children") >>= children site (some r)) =
      check ((node.mapField "children" f).elementsOf "children") >>=
        children { site with excluded } (some r)) :
    makeFeature site content node =
      makeFeature { site with excluded } content' (node.mapField "children" f) := by
  simp only [makeFeature, hcomments, field_mapField_of_ne, optionalField_mapField_of_ne,
    locationOf_mapField_of_ne, ne_eq, String.reduceEq, not_false_eq_true]
  -- what comes before the children is the same on both sides
  refine bind_congr fun _ => bind_congr fun _ => bind_congr fun _ => bind_congr fun _ => ?_
  refine bind_congr fun _ => bind_congr fun _ => bind_congr fun r => bind_congr fun _ => ?_
  refine bind_congr fun _ => bind_congr fun _ => ?_
  rw [← bind_assoc, hchildren r, bind_assoc]

theorem makeFeature_pruned {content : Value}
    (h : node.fieldPasses "children" (allItems (childFormed site.excluded)) = true) :
    makeFeature site content node = makeFeature (including site) (content.prune site.excluded)
      (node.pruneFeature site.excluded) := by
  refine makeFeature_congr ?_ fun r => children_pruned (some r) h
  rw [commentsOf, commentsOf, prune, elementsOf_mapField_of_ne (by decide)]

theorem document_pruned {content : Value} (h : content.documentFormed site.excluded = true) :
    document site content = document (including site) (content.prune site.excluded) := by
  have hfeature : (content.prune site.excluded).field "feature" =
      (content.field "feature").map (pruneFeature site.excluded) := field_mapField_self content rfl
  rw [document_eq, document_eq, hfeature]
  simp only [documentFormed, fieldPasses] at h
  cases hnode : content.field "feature" with
  | error fault => exact bind_check_error
  | ok node =>
      rw [hnode] at h
      simp only [Bool.and_eq_true, Bool.not_eq_true'] at h
      obtain ⟨⟨htags, hkeep⟩, hchildren⟩ := h
      have htagsField : (node.pruneFeature site.excluded).field "tags" = node.field "tags" :=
        field_mapField_of_ne node (by decide) _
      have hpresent : (node.pruneFeature site.excluded).isPresent = node.isPresent :=
        isPresent_mapField node
      simp only [Except.map, bind_check_ok, hpresent, unlessExcluded_of_kept htags hkeep,
        makeFeature_pruned hchildren]
      simp only [unlessExcluded, htagsField, show (including site).excluded = [] from rfl]

/-- The names come in with their sigils or without. -/
theorem map_stripSigil (h : ∀ name ∈ names, stripSigil name = name) :
    names.map stripSigil = names := by
  rw [List.map_congr_left h, List.map_id']

/-- **Excluding by tag is the same as never having written the excluded parts**: from every store
the build goes the same way to the same end, and no tag of an excluded name comes in. -/
theorem feature_prune {content : Value} (hnames : ∀ name ∈ names, stripSigil name = name)
    (hformed : content.documentFormed names = true) (s : Store) (file : Path) (readMe : ReadMe) :
    (feature file content names readMe).run s =
        (feature file (content.prune names) [] readMe).run s ∧
      ∀ r : Ref Tag, ¬ s.Has (.tag r) →
        ((feature file content names readMe).run s).2.Has (.tag r) →
          (((feature file content names readMe).run s).2.get r).name ∉ names := by
  constructor
  · have hsame : feature file content names readMe =
        feature file (content.prune names) [] readMe := by
      unfold feature Build.site
      simp only [bind_assoc, pure_bind, map_stripSigil hnames, List.map_nil]
      exact bind_congr fun e => document_pruned hformed
    rw [hsame]
  · intro r hnew hr
    have hname := (feature_changes file content names readMe s).named_of_new hnew hr
    rwa [map_stripSigil hnames] at hname

private def taggedNode (tag : String) (fields : List (String × Value)) : Value :=
  .ofFields (("tags", .list [.ofFields [("name", .text tag)]]) :: fields)

/-- A feature with an outline that loses one of its tables, and a rule that loses one of its
scenarios. -/
private def stockStory : Value :=
  .ofFields [("feature", taggedNode "@stock" [("children", .list [
    .ofFields [("scenario", taggedNode "@smoke" [("examples", .list [
      taggedNode "@wip" [("tableBody", .list [.ofFields []])],
      taggedNode "@daily" [("tableBody", .list [.ofFields [], .ofFields []])]])])],
    .ofFields [("rule", .ofFields [("children", .list [
      .ofFields [("scenario", taggedNode "@wip" [])],
      .ofFields [("scenario", taggedNode "@late" [])]])])]])])]

/-- The outline keeps two rows, the rule one scenario, and nothing knows of the excluded tag. -/
theorem feature_prune_stock :
    let built := (feature (.ofString "stock.feature") stockStory ["wip"] none).run {}
    built = (feature (.ofString "stock.feature") (stockStory.prune ["wip"]) [] none).run {} ∧
      built.1.toOption = some (some ⟨0⟩) ∧ (built.2.get ⟨0⟩ : Feature).totalScenarios = 3 ∧
      built.2.allTags.map (fun r => (built.2.get r).name) = ["stock", "smoke", "daily", "late"] ∧
      ∀ r : Ref Tag, built.2.Has (.tag r) → (built.2.get r).name ∉ ["wip"] := by
  obtain ⟨hsame, htags⟩ := feature_prune
    (show ∀ name ∈ ["wip"], stripSigil name = name by decide)
    (show stockStory.documentFormed ["wip"] = true by decide +kernel)
    {} (.ofString "stock.feature") none
  refine ⟨hsame, by decide +kernel, by decide +kernel, by decide +kernel, fun r hr => ?_⟩
  exact htags r (by simp [Store.Has, Arena.Holds]) hr

end Build

end StepTrace
