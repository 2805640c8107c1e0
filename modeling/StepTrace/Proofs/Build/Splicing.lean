import StepTrace.Proofs.Build.Exclusion
import StepTrace.Proofs.Nodes

/-!
# Rules in place

A rule has no record of its own, so a document is built as the one in which each rule at the level
of the feature is replaced, where it stands, by the backgrounds and scenarios that it holds
(`feature_splice`).  A rule inside a rule is dropped.

The document has to have children of one kind each (`Value.documentSingle`); of what else stands in
it nothing is asked.  A list that cannot be read is left as it is, so that the build is refused at the
same place with the same fault.
-/

namespace StepTrace

namespace Value

/-! ## Children of one kind -/

/-- Is the child exactly one of a background, a scenario and a rule? -/
def isSingle (child : Value) : Bool :=
  ["background", "scenario", "rule"].countP (fun key => (child.partOf key).isPresent) == 1

/-- Do all that a field lists, as far as it can be read, pass? -/
def elementsPass (key : String) (pass : Value → Bool) (node : Value) : Bool :=
  (node.itemsOf key).all pass

/-- Is the child of one kind, and each of its children, if it is a rule? -/
def childSingle (child : Value) : Bool :=
  child.isSingle && (child.partOf "rule").elementsPass "children" isSingle

/-- Are the children of the feature, and those of its rules, of one kind each? -/
def documentSingle (content : Value) : Bool :=
  (content.partOf "feature").elementsPass "children" childSingle

/-! ## Splicing -/

/-- Is the child a background or a scenario? -/
def isLeaf (child : Value) : Bool :=
  (child.partOf "background").isPresent || (child.partOf "scenario").isPresent

/-- What stands in the place of a child: the backgrounds and scenarios of a rule, or the child
itself. -/
def spliced (child : Value) : List Value :=
  if (child.partOf "rule").isPresent then
    match (child.partOf "rule").elementsOf "children" with
    | .ok items => items.filter isLeaf
    | .error _ => [child]
  else [child]

/-- A list of children with the rules replaced by what they hold. -/
def spliceItems (children : Value) : Value :=
  if children.isPresent then
    match children.elements with
    | .ok items => list (items.flatMap spliced)
    | .error _ => children
  else children

/-- A feature node with its rules replaced by what they hold. -/
def spliceFeature : Value → Value :=
  mapField "children" spliceItems

/-- **The document with the rules of its feature replaced, in place, by what they hold.** -/
def splice : Value → Value :=
  mapField "feature" spliceFeature

variable {node child : Value}

theorem orElse_list (items : List Value) : (list items).orElse (list []) = list items := by
  cases items <;> rfl

/-- Splicing replaces each child where it stands; what cannot be read stays so. -/
theorem elementsOf_spliceFeature (node : Value) :
    node.spliceFeature.elementsOf "children" =
      (node.elementsOf "children").map (List.flatMap spliced) := by
  have hfield : node.spliceFeature.field "children" = (node.field "children").map spliceItems :=
    field_mapField_self node rfl
  rw [elementsOf, elementsOf, hfield]
  cases hv : node.field "children" with
  | error fault => rfl
  | ok v =>
      change (v.spliceItems.orElse (list [])).elements =
        (v.orElse (list [])).elements.map (List.flatMap spliced)
      cases hpresent : v.isPresent with
      | false =>
          rw [spliceItems, hpresent, if_neg Bool.false_ne_true, orElse, hpresent]
          rfl
      | true =>
          have hsame : v.orElse (list []) = v := by rw [orElse, hpresent, if_pos rfl]
          rw [spliceItems, hpresent, if_pos rfl, hsame]
          cases hitems : v.elements with
          | error fault => simp only [hsame, hitems, Except.map]
          | ok items =>
              simp only [orElse_list, Except.map]
              rfl

/-- The children of the feature with the rules replaced. -/
theorem children_splice (content : Value) : (content.splice.partOf "feature").itemsOf "children" =
    ((content.partOf "feature").itemsOf "children").flatMap spliced := by
  have hfeature : content.splice.field "feature" =
      (content.field "feature").map spliceFeature := field_mapField_self content rfl
  have hpart : content.splice.partOf "feature" = (content.partOf "feature").spliceFeature := by
    rw [partOf, hfeature, partOf]
    cases content.field "feature" <;> rfl
  rw [hpart, itemsOf, elementsOf_spliceFeature, itemsOf]
  cases (content.partOf "feature").elementsOf "children" <;> rfl

/-- A child of one kind is a rule if it is neither of the others. -/
theorem rule_isPresent (h : child.isSingle = true) :
    (child.partOf "rule").isPresent = !child.isLeaf := by
  simp only [isSingle, isLeaf, beq_iff_eq] at h ⊢
  cases hb : (child.partOf "background").isPresent <;>
    cases hs : (child.partOf "scenario").isPresent <;>
    cases hr : (child.partOf "rule").isPresent <;>
    simp [hb, hs, hr] at h ⊢

end Value

namespace Build

open Value

variable {site : Site} {node : Value}

/-! ## The builders of rules and of what they hold -/

/-- A rule builds its backgrounds and scenarios as the feature would, and nothing else. -/
theorem ruleChild_eq (feature : Option (Ref Feature)) (h : node.isSingle = true) :
    ruleChild site feature node = if node.isLeaf then child site feature node else pure () := by
  have hrule := rule_isPresent h
  unfold ruleChild child
  rcases field_cases node with hnone | hsome
  · have hpart (key : String) : node.partOf key = .null := by rw [partOf, hnone]; rfl
    simp only [isSingle, hpart] at h
    cases h
  · obtain ⟨backgroundNode, hb⟩ := hsome "background"
    obtain ⟨scenarioNode, hs⟩ := hsome "scenario"
    obtain ⟨ruleNode, hr⟩ := hsome "rule"
    rw [partOf_eq hr] at hrule
    simp only [isLeaf, partOf_eq hb, partOf_eq hs] at hrule ⊢
    simp only [hb, hs, hr, bind_check_ok]
    cases hbackground : backgroundNode.isPresent with
    | true => rfl
    | false =>
        cases hscenario : scenarioNode.isPresent with
        | true => rfl
        | false => rfl

/-- **A child of a feature is built as what stands in its place.** -/
theorem child_eq_forM_spliced (feature : Option (Ref Feature)) (h : node.childSingle = true) :
    child site feature node = node.spliced.forM (child site feature) := by
  simp only [childSingle, Bool.and_eq_true] at h
  obtain ⟨hsingle, hitems⟩ := h
  have halone : child site feature node = [node].forM (child site feature) := (bind_pure _).symm
  have hrule := rule_isPresent hsingle
  unfold spliced
  cases hpresent : (node.partOf "rule").isPresent with
  | false => exact halone
  | true =>
      rw [if_pos rfl]
      split
      · rename_i items hok
        rw [elementsPass, itemsOf_eq hok] at hitems
        have hloop : items.forM (ruleChild site feature) =
            ((items.filter isLeaf).map id).forM (child site feature) :=
          forM_sift fun item hitem => ruleChild_eq feature (List.all_eq_true.mp hitems item hitem)
        rw [List.map_id] at hloop
        rw [← hloop]
        unfold child
        rcases field_cases node with hnone | hsome
        · rw [partOf, hnone] at hpresent
          cases hpresent
        · obtain ⟨backgroundNode, hb⟩ := hsome "background"
          obtain ⟨scenarioNode, hs⟩ := hsome "scenario"
          obtain ⟨ruleNode, hr⟩ := hsome "rule"
          simp only [isLeaf, hpresent, partOf_eq hb, partOf_eq hs, Bool.true_eq, Bool.not_eq_true',
            Bool.or_eq_false_iff] at hrule
          rw [partOf_eq hr] at hpresent hok
          simp only [hb, hs, hr, bind_check_ok, hrule.1, hrule.2, hpresent, hok]
          rfl
      · exact halone

/-- A loop whose rounds are loops themselves goes over the lists put together. -/
theorem forM_eq_forM_flatMap {α : Type} {xs : List α} {f : α → List α} {g : α → Build Unit}
    (h : ∀ x ∈ xs, g x = (f x).forM g) : xs.forM g = (xs.flatMap f).forM g := by
  induction xs with
  | nil => rfl
  | cons x xs ih =>
      have hx := h x (List.mem_cons_self ..)
      have hxs := ih fun y hy => h y (List.mem_cons_of_mem _ hy)
      rw [List.flatMap_cons]
      calc (x :: xs).forM g = g x >>= fun _ => xs.forM g := rfl
        _ = (f x).forM g >>= fun _ => (xs.flatMap f).forM g := by rw [hx, hxs]
        _ = (f x ++ xs.flatMap f).forM g := (List.forM_append ..).symm

/-- The children of a feature are built as those of the feature with its rules replaced. -/
theorem children_spliced (feature : Option (Ref Feature))
    (h : node.elementsPass "children" childSingle = true) :
    (check (node.elementsOf "children") >>= children site feature) =
      check (node.spliceFeature.elementsOf "children") >>= children site feature := by
  rw [elementsOf_spliceFeature]
  cases hitems : node.elementsOf "children" with
  | error fault => rfl
  | ok items =>
      rw [elementsPass, itemsOf_eq hitems] at h
      exact forM_eq_forM_flatMap fun item hitem =>
        child_eq_forM_spliced feature (List.all_eq_true.mp h item hitem)

/-! ## Documents -/

theorem makeFeature_spliced {content : Value}
    (h : node.elementsPass "children" childSingle = true) :
    makeFeature site content node = makeFeature site content.splice node.spliceFeature := by
  have hcomments : commentsOf content.splice = commentsOf content := by
    rw [commentsOf, commentsOf, splice, elementsOf_mapField_of_ne (by decide)]
  exact makeFeature_congr hcomments fun r => children_spliced (some r) h

theorem document_spliced {content : Value} (h : content.documentSingle = true) :
    document site content = document site content.splice := by
  have hfeature : content.splice.field "feature" =
      (content.field "feature").map spliceFeature := field_mapField_self content rfl
  rw [document_eq, document_eq, hfeature]
  cases hnode : content.field "feature" with
  | error fault => exact bind_check_error
  | ok node =>
      rw [documentSingle, partOf_eq hnode] at h
      have htags : node.spliceFeature.field "tags" = node.field "tags" :=
        field_mapField_of_ne node (by decide) _
      have hpresent : node.spliceFeature.isPresent = node.isPresent := isPresent_mapField node
      simp only [Except.map, bind_check_ok, hpresent, unlessExcluded, htags, makeFeature_spliced h]

/-- **A document is built as the one with its rules replaced by what they hold**: from every store
the build goes the same way to the same end. -/
theorem feature_splice {content : Value} (h : content.documentSingle = true) (file : Path)
    (excluded : List String) (readMe : ReadMe) :
    feature file content excluded readMe = feature file content.splice excluded readMe := by
  unfold feature
  exact bind_congr fun site => document_spliced h

end Build

end StepTrace
