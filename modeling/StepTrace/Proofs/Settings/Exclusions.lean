import StepTrace.Proofs.Batch.Outcomes
import StepTrace.Proofs.Build.Exclusion
import StepTrace.Proofs.Outline.InOrder
import Mathlib.Data.Finset.Max
import Mathlib.Tactic.TFAE

/-!
# What settings exclude and what a batch passes over

A tag excludes by its name, so a sigil comes off wherever tokens are compared: settings give the
names of what they exclude (`Settings.excluded`), and the build of a document takes a sigil from
what it is given, which may be tokens as they were written (`Build.site`).  A batch does the one
after the other, and so takes two.  What has lost its only sigil stays as it is, so this makes a
difference only if something that is excluded begins with two sigils
(`Settings.exclusions_agree`).

That it always makes a difference then is an argument about the longest name: a name that begins
with a sigil is lost when names lose another one, unless the name with one more sigil is excluded
too (`stripSigil_eq_self_of_closed`).
-/

namespace StepTrace

variable {token name : String} {names other : List String}

/-! ## Sigils -/

theorem toList_stripSigil (token : String) : (stripSigil token).toList =
    match token.toList with
    | '@' :: rest => rest
    | s => s := by
  rw [stripSigil]
  split <;> simp_all

theorem stripSigil_sigil (name : String) : stripSigil ("@" ++ name) = name := by
  rw [← String.toList_inj, toList_stripSigil, String.toList_append]
  rfl

/-- A token that loses a sigil is longer than its name. -/
theorem length_stripSigil_lt (h : stripSigil token ≠ token) :
    (stripSigil token).length < token.length := by
  rw [← String.length_toList, ← String.length_toList, toList_stripSigil]
  split
  case h_1 rest heq => simp [heq]
  case h_2 s hs =>
    refine absurd (String.toList_inj.mp ?_) h
    rw [toList_stripSigil]
    split
    case h_1 rest heq => exact absurd heq (hs rest)
    case h_2 => rfl

/-- A name loses another sigil if and only if its token began with two. -/
theorem stripSigil_stripSigil_iff :
    stripSigil (stripSigil token) = stripSigil token ↔ ¬ ['@', '@'] <+: token.toList := by
  rw [← String.toList_inj, toList_stripSigil (stripSigil token), toList_stripSigil token]
  rcases token.toList with _ | ⟨c, _ | ⟨d, rest⟩⟩
  · simp
  · by_cases hc : c = '@' <;> simp [hc]
  · by_cases hc : c = '@' <;> by_cases hd : d = '@' <;> simp [hc, hd, @eq_comm _ '@']

/-- Names from which the loss of a sigil takes nothing, and to which it adds nothing, have none. -/
theorem stripSigil_eq_self_of_closed
    (h : ∀ token, stripSigil token ∈ names ↔ stripSigil token ∈ names.map stripSigil)
    (hname : name ∈ names) : stripSigil name = name := by
  by_contra hsigil
  let long := names.toFinset.filter fun name => stripSigil name ≠ name
  obtain ⟨longest, hlongest, hmax⟩ := long.exists_max_image String.length
    ⟨name, by simp [long, hname, hsigil]⟩
  simp only [long, Finset.mem_filter, List.mem_toFinset] at hlongest hmax
  -- The longest name that has a sigil comes from a name with one sigil more.
  have hkept := h ("@" ++ longest)
  rw [stripSigil_sigil] at hkept
  obtain ⟨longer, hlonger, hstrip⟩ := List.mem_map.mp (hkept.mp hlongest.1)
  have hne : stripSigil longer ≠ longer := by
    intro heq
    rw [← hstrip, heq] at hlongest
    exact hlongest.2 heq
  have hlt := length_stripSigil_lt hne
  rw [hstrip] at hlt
  exact absurd (hmax longer ⟨hlonger, hne⟩) (Nat.not_le.mpr hlt)

/-! ## The excluded names of settings -/

/-- Without repeats the elements are the same. -/
theorem mem_foldl_new {names : List String} (kept : List String) :
    name ∈ names.foldl (fun kept name => if name ∈ kept then kept else kept ++ [name]) kept ↔
      name ∈ kept ∨ name ∈ names := by
  induction names generalizing kept with
  | nil => simp
  | cons head names ih =>
      rw [List.foldl_cons, ih]
      split <;> grind

theorem nodup_foldl_new {names kept : List String} (h : kept.Nodup) :
    (names.foldl (fun kept name => if name ∈ kept then kept else kept ++ [name]) kept).Nodup := by
  induction names generalizing kept with
  | nil => exact h
  | cons head names ih =>
      rw [List.foldl_cons]
      split
      · exact ih h
      · exact ih (List.nodup_append.mpr ⟨h, List.nodup_singleton _, by grind⟩)

theorem bareNames_texts (tokens : List String) :
    bareNames (tokens.map .text) = .ok (tokens.map stripSigil) := by
  induction tokens with
  | nil => rfl
  | cons token tokens ih =>
      rw [List.map_cons, bareNames, ih]
      rfl

/-- The excluded names of settings are those of the tokens, each once. -/
theorem Settings.excluded_texts {settings : Settings} {tokens : List String}
    (h : settings.excludedTags = tokens.map .text) :
    ∃ names, settings.excluded = .ok names ∧ names.Nodup ∧
      ∀ name, name ∈ names ↔ name ∈ tokens.map stripSigil := by
  rw [Settings.excluded, h, bareNames_texts]
  exact ⟨_, rfl, nodup_foldl_new List.nodup_nil, fun name => by simp [mem_foldl_new]⟩

/-! ## Sites that are given the same names -/

/-- Only which names are excluded matters. -/
theorem declaresExcluded_congr (h : ∀ name, name ∈ names ↔ name ∈ other) :
    declaresExcluded names = declaresExcluded other := by
  have hempty : names.isEmpty = other.isEmpty := by
    rw [Bool.eq_iff_iff, List.isEmpty_iff, List.isEmpty_iff, List.eq_nil_iff_forall_not_mem,
      List.eq_nil_iff_forall_not_mem]
    simp only [h]
  have hany (p : String → Bool) : names.any p = other.any p := by
    rw [Bool.eq_iff_iff, List.any_eq_true, List.any_eq_true]
    simp only [h]
  funext nodes
  simp only [declaresExcluded, hempty, hany]

namespace Build

/-- The site with other names to exclude. -/
def excluding (site : Site) (names : List String) : Site :=
  { site with excluded := names }

section

variable (h : declaresExcluded names = declaresExcluded other) (site : Site)
include h

theorem examples_congr (outline : Ref Outline) :
    examples (excluding site names) outline = examples (excluding site other) outline := by
  funext node
  simp only [examples, excluding, h]

theorem scenario_congr (feature : Option (Ref Feature)) :
    scenario (excluding site names) feature = scenario (excluding site other) feature := by
  have houtline (r : Ref Feature) (node : Value) :
      outline (excluding site names) r node = outline (excluding site other) r node := by
    simp only [outline, examples_congr h]
    rfl
  funext node
  simp only [scenario, houtline]
  simp only [excluding, h]
  rfl

theorem child_congr (feature : Option (Ref Feature)) :
    child (excluding site names) feature = child (excluding site other) feature := by
  have hrule : ruleChild (excluding site names) feature =
      ruleChild (excluding site other) feature := by
    funext node
    simp only [ruleChild, scenario_congr h]
    rfl
  funext node
  simp only [child, scenario_congr h, hrule]
  rfl

theorem document_congr (content : Value) :
    document (excluding site names) content = document (excluding site other) content := by
  simp only [document, children, child_congr h]
  simp only [excluding, h]
  rfl

end

/-- Builds that are given the same names do the same. -/
theorem feature_congr (hsame : ∀ name, name ∈ names.map stripSigil ↔ name ∈ other.map stripSigil)
    (file : Path) (content : Value) (readMe : ReadMe) :
    feature file content names readMe = feature file content other readMe := by
  have hexcluded := declaresExcluded_congr hsame
  unfold feature site
  simp only [bind_assoc, pure_bind]
  exact bind_congr fun e => document_congr hexcluded ⟨file.toString, [], e⟩ content

/-- A feature that is not passed over is built unless the build is refused. -/
theorem makeFeature_isSome (site : Site) (content node : Value) (s : Store) :
    Ensures (makeFeature site content node) s (fun _ => True) fun result _ => result.isSome := by
  unfold makeFeature
  repeat refine .bind (Q := fun _ _ => True) ⟨trivial, fun _ _ => trivial⟩ fun _ _ _ _ => ?_
  exact .pure trivial rfl

/-- A document with a feature is built into none if and only if the feature is excluded. -/
theorem document_none_iff {site : Site} {content node : Value}
    (hnode : content.field "feature" = .ok node) (hpresent : node.isPresent = true)
    (htags : node.tagsNamed = true) (s : Store) :
    ((document site content).run s).1 = .ok none ↔ node.hasTagOf site.excluded = true := by
  rw [document_eq, hnode, bind_check_ok, hpresent]
  change ((unlessExcluded site.excluded node none _).run s).1 = .ok none ↔ _
  cases hexcluded : node.hasTagOf site.excluded with
  | true =>
      rw [unlessExcluded_of_excluded htags hexcluded]
      exact iff_of_true rfl rfl
  | false =>
      refine iff_of_false (fun hnone => ?_) Bool.false_ne_true
      rw [unlessExcluded, declaresExcluded_eq htags, hexcluded] at hnone
      cases htagsField : node.field "tags" with
      | error fault =>
          rw [htagsField] at hnone
          cases hnone
      | ok nodes =>
          rw [htagsField] at hnone
          cases (makeFeature_isSome site content node s).2 none hnone

end Build

/-! ## Names that are given to a build -/

namespace Site

variable {x : Site} {node : Value}

/-- The site of a build that is given the names. -/
def Given (names : List String) (x : Site) : Prop :=
  ∃ file readMe s s', (Build.site file names readMe).run s = (.ok x, s')

/-- A build at the site passes over the node. -/
def PassesOver (x : Site) (node : Value) : Prop :=
  (do declaresExcluded x.excluded (← node.field "tags")) = Except.ok true

theorem Given.excluded_eq (h : x.Given names) : x.excluded = names.map stripSigil := by
  obtain ⟨file, readMe, s, s', hrun⟩ := h
  exact ((Build.site_names s file names readMe).2 x (by rw [hrun])).2

theorem exists_given (names : List String) : ∃ x : Site, x.Given names :=
  ⟨_, .ofString "a.feature", none, {}, _, rfl⟩

/-- A node is passed over if it has a tag of one of the names, which lose a sigil. -/
theorem Given.passesOver_iff (h : x.Given names) (htags : node.tagsNamed = true) :
    x.PassesOver node ↔ node.hasTagOf (names.map stripSigil) = true := by
  rw [PassesOver, Build.declaresExcluded_eq htags, ← h.excluded_eq]
  cases htagsField : node.field "tags" with
  | error fault => simp [Value.hasTagOf, htagsField, Except.map]
  | ok nodes => simp [Except.map]

end Site

theorem Value.hasTagOf_congr (h : ∀ name, name ∈ names ↔ name ∈ other) (node : Value) :
    node.hasTagOf names = node.hasTagOf other := by
  rw [Value.hasTagOf, Value.hasTagOf]
  simp only [h]

/-- A feature that declares a tag, and nothing else. -/
def tagged (token : String) : Value :=
  .ofFields [("tags", .list [.ofFields [("name", .text token)]])]

theorem hasTagOf_tagged (token : String) (names : List String) :
    (tagged token).hasTagOf names = decide (stripSigil token ∈ names) := by
  rw [Value.hasTagOf, show (tagged token).field "tags" =
    .ok (.list [.ofFields [("name", .text token)]]) from rfl]
  exact Bool.or_false _

/-- From the empty store, a tagged feature is built into none if and only if the tag is excluded. -/
theorem Build.feature_tagged_iff (token : String) (names : List String) :
    ((feature (.ofString "a.feature") (.ofFields [("feature", tagged token)]) names none).run {}).1
      = .ok none ↔ stripSigil token ∈ names.map stripSigil := by
  obtain ⟨x, s, hsite⟩ : ∃ x s, (site (.ofString "a.feature") names none).run {} = (.ok x, s) :=
    ⟨_, _, rfl⟩
  have hgiven : x.Given names := ⟨_, _, _, _, hsite⟩
  have hnode : (Value.ofFields [("feature", tagged token)]).field "feature" =
    .ok (tagged token) := rfl
  rw [feature, Action.run_bind_ok hsite, document_none_iff hnode rfl rfl, hasTagOf_tagged,
    hgiven.excluded_eq, decide_eq_true_eq]

namespace Settings

variable {settings : Settings} {tokens : List String}

/-- **Exclusions that are set and exclusions that are applied**: a build that is given tokens as
they were written passes over what has a tag of one of the excluded names, a batch over what has a
tag of one of these names without another sigil.  The batch passes over what it should, over what a
build does that is given the tokens, and does the same as that build in everything, if and only if
no token begins with two sigils. -/
theorem exclusions_agree (htokens : settings.excludedTags = tokens.map .text) :
    ∃ names, settings.excluded = .ok names ∧ names.Nodup ∧
      (∀ name, name ∈ names ↔ name ∈ tokens.map stripSigil) ∧
      (∀ x node, Site.Given tokens x → node.tagsNamed = true →
        (x.PassesOver node ↔ node.hasTagOf names = true)) ∧
      (∀ x node, Site.Given names x → node.tagsNamed = true →
        (x.PassesOver node ↔ node.hasTagOf (names.map stripSigil) = true)) ∧
      List.TFAE [
        ∀ token ∈ tokens, ¬ ['@', '@'] <+: token.toList,
        ∀ x node, Site.Given names x → node.tagsNamed = true →
          (x.PassesOver node ↔ node.hasTagOf names = true),
        ∀ x y node, Site.Given names x → Site.Given tokens y →
          (x.PassesOver node ↔ y.PassesOver node),
        ∀ tree file path content, Batch.buildDocument tree settings file path content =
          Build.feature file content tokens (Batch.readMeOf tree path)] := by
  obtain ⟨names, hnames, hnodup, hmem⟩ := excluded_texts htokens
  have hsame : ∀ node, Value.hasTagOf names node = Value.hasTagOf (tokens.map stripSigil) node :=
    Value.hasTagOf_congr hmem
  have hbuild (tree : FileTree) (file path : Path) (content : Value) :
      Batch.buildDocument tree settings file path content =
        Build.feature file content names (Batch.readMeOf tree path) := by
    rw [Batch.buildDocument, hnames]
    rfl
  have hsingle : (∀ name ∈ names, stripSigil name = name) ↔
      ∀ token ∈ tokens, ¬ ['@', '@'] <+: token.toList := by
    simp only [hmem, List.forall_mem_map, stripSigil_stripSigil_iff]
  refine ⟨names, hnames, hnodup, hmem, fun x node hx htags => ?_,
    fun x node hx htags => hx.passesOver_iff htags, ?_⟩
  · rw [hx.passesOver_iff htags, hsame]
  -- Names that have lost their only sigil are the same when they lose another one.
  tfae_have 1 → 3 := by
    intro hone x y node hx hy
    have hlist : names.map stripSigil = names := Build.map_stripSigil (hsingle.mpr hone)
    rw [Site.PassesOver, Site.PassesOver, hx.excluded_eq, hy.excluded_eq, hlist,
      declaresExcluded_congr hmem]
  tfae_have 3 → 2 := by
    intro hagree x node hx htags
    obtain ⟨y, hy⟩ := Site.exists_given tokens
    rw [hagree x y node hx hy, hy.passesOver_iff htags, hsame]
  -- In the other direction a feature with a single tag tells the names apart.
  tfae_have 2 → 1 := by
    intro hexact
    obtain ⟨x, hx⟩ := Site.exists_given names
    refine hsingle.mp fun name => stripSigil_eq_self_of_closed fun token => ?_
    have htoken := hexact x (tagged token) hx rfl
    rw [hx.passesOver_iff rfl, hasTagOf_tagged, hasTagOf_tagged] at htoken
    simpa using htoken.symm
  tfae_have 1 → 4 := by
    intro hone tree file path content
    rw [hbuild]
    refine Build.feature_congr (fun name => ?_) file content _
    rw [Build.map_stripSigil (hsingle.mpr hone), hmem]
  tfae_have 4 → 1 := by
    intro hall
    refine hsingle.mp fun name => stripSigil_eq_self_of_closed fun token => ?_
    have hbuilds := hall default (.ofString "a.feature") (.ofString "a.feature")
      (.ofFields [("feature", tagged token)])
    rw [hbuild, show Batch.readMeOf default (.ofString "a.feature") = none from rfl] at hbuilds
    rw [← Build.feature_tagged_iff token names, hbuilds, Build.feature_tagged_iff, hmem]
  tfae_finish

theorem exclusions_agree_drafts :
    let settings : Settings := { excludedTags := [.text "@wip", .text "wip", .text "manual"] }
    let file := Path.ofString "yard/shed.feature"
    let shed := Value.ofFields [("feature", tagged "@wip")]
    settings.excluded = .ok ["wip", "manual"] ∧
      Batch.buildDocument default settings file file shed =
        Build.feature file shed ["@wip", "wip", "manual"] none ∧
      ((Batch.buildDocument default settings file file shed).run {}).1.toOption = some none := by
  intro settings file shed
  have htokens : settings.excludedTags = ["@wip", "wip", "manual"].map .text := rfl
  obtain ⟨names, hnames, -, -, -, -, hall⟩ := exclusions_agree htokens
  have hsame := (hall.out 0 3 rfl rfl).mp (by decide)
  exact ⟨rfl, hsame default file file shed, by decide +kernel⟩

/-- What excludes `@@wip` has the name `@wip`, which the tag `@wip` has not.  A build that is given
the token makes the feature; a batch takes another sigil from the name, and passes over it. -/
theorem sigil_lost_twice :
    let settings : Settings := { excludedTags := [.text "@@wip"] }
    let file := Path.ofString "yard/shed.feature"
    let shed := Value.ofFields [("feature", tagged "@wip")]
    let batch := Batch.build default settings none [⟨file, pure (some shed)⟩]
    settings.excluded = .ok ["@wip"] ∧ (tagged "@wip").hasTagOf ["@wip"] = false ∧
      ((Build.feature file shed ["@@wip"] none).run {}).1.toOption = some (some ⟨0⟩) ∧
      (batch.run { store := {} }).1.toOption.map Batch.skipped = some ["yard/shed.feature"] :=
  ⟨rfl, by decide, by decide +kernel, by decide +kernel⟩

end Settings

end StepTrace
