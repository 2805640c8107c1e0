import StepTrace.Proofs.Batch.Outcomes
import StepTrace.Proofs.Build.Directories
import StepTrace.Proofs.Twins.Exact

/-!
# A broken document influences no other file

Take a batch that comes to its end, and delete from its sources those that could not be read and
those whose build was refused (`Batch.survivors`): what is left builds the same features into a
registry that is the same but for the places of its records (`Twins .exact`).

The two runs are compared source by source.  A source that stays goes the same way in both
(`Build.feature_follows`); after one that is refused, the registry of the first run was restored and
is still the twin of that of the second (`Twins.restored`).
-/

namespace StepTrace

open Store

/-- The source gives this document, or none; reading it may warn, and that is all. -/
def Source.Gives (source : Source) (content : Option Value) : Prop :=
  ∀ w : Work, ∃ warnings, source.document.run w = (.ok content, { w with warnings })

theorem Source.Gives.reads {source : Source} {content : Option Value} (h : source.Gives content) :
    source.Reads content := by
  intro w c w' hrun
  obtain ⟨warnings, hgives⟩ := h w
  rw [hgives] at hrun
  cases hrun
  exact ⟨rfl, rfl⟩

/-- The feature that is registered under a name. -/
def Store.featureOf? (s : Store) (id : String) : Option (Ref Feature) :=
  match s.catalog.find? id with
  | some (.feature r) => some r
  | _ => none

theorem Store.featureOf?_eq_some {s : Store} {id : String} {r : Ref Feature} :
    s.featureOf? id = some r ↔ s.catalog.find? id = some (.feature r) := by
  unfold featureOf?
  split
  · rename_i r' h
    rw [h]
    simp
  · rename_i h
    exact iff_of_false nofun (h r)

/-- Nothing has changed but namespaces: directories of the file have come in, and the innermost may
have been described. -/
structure Store.OnlyDirectories (file : Path) (s s' : Store) : Prop where
  /-- All that was registered still is, in the same order. -/
  order : s'.catalog.entries.restrict (· ∈ s.catalog.ids) = s.catalog.entries.entries
  others : ∀ {e}, s.Has e → e.kind ≠ .nameSpace → s'.content e = s.content e
  /-- What has come in are directories of the file. -/
  new : ∀ {id e}, s'.catalog.find? id = some e → s.catalog.find? id = some e ∨
    (∃ n, e = .nameSpace n) ∧ ∃ names, names <+: file.parent.names ∧ id = directoryId names
  /-- The children that a namespace has gained have come in. -/
  children : ∀ {id n name c}, s.catalog.find? id = some (.nameSpace n) →
    (s'.get n).children.find? name = some c → (s.get n).children.find? name = some c ∨
      s.catalog.find? (id ++ "/" ++ name) = none ∧
        s'.catalog.find? (id ++ "/" ++ name) = some (.nameSpace c)
  /-- A namespace changes in its children, and the innermost also in its description. -/
  spaces : ∀ {id n}, s.catalog.find? id = some (.nameSpace n) →
    ∃ children description, s'.get n = { s.get n with children, description } ∧
      (id ≠ directoryId file.parent.names → description = (s.get n).description)

namespace Store

variable {s s' : Store} {path : List String → Prop}

/-- A registered namespace keeps all but its children. -/
theorem Opens.get_nameSpace (h : s.Tree) (hopens : Opens path s s') {id : String}
    {n : Ref Namespace} (hn : s.catalog.find? id = some (.nameSpace n)) :
    s'.get n = { s.get n with children := (s'.get n).children } := by
  obtain ⟨names, hnames, rfl⟩ := h.exists_names hn
  have hn' := hopens.built.find?_nameSpace hn
  have hspace : s'.spaceAt names = s.spaceAt names := by
    obtain ⟨hin, hout⟩ := hopens.spaceAt hnames
    by_cases hpath : path names
    · rw [hin hpath, spaceAt_of_find? hn, Option.some_or]
    · exact hout hpath
  rw [spaceAt_of_find? hn, spaceAt_of_find? hn'] at hspace
  exact Namespace.eq_of_childless (Option.some.inj hspace)

/-- What has come in are directories of the path. -/
theorem Opens.find?_new (hopens : Opens path s s') {id : String} {e : Entry}
    (he : s'.catalog.find? id = some e) : s.catalog.find? id = some e ∨
      (∃ n, e = .nameSpace n) ∧ ∃ names, path names ∧ id = directoryId names := by
  rcases hopens.new he with hold | ⟨n, rfl⟩
  · exact Or.inl hold
  · obtain ⟨names, hnames, rfl⟩ := hopens.built.tree.exists_names he
    by_cases hpath : path names
    · exact Or.inr ⟨⟨n, rfl⟩, names, hpath, rfl⟩
    · left
      have hspace := (hopens.spaceAt hnames).2 hpath
      rw [spaceAt_of_find? he] at hspace
      obtain ⟨m, hm⟩ := find?_of_spaceAt hspace.symm
      rw [hm, ← hopens.built.find?_nameSpace hm, he]

/-- The children that a namespace has gained have come in. -/
theorem Pure.children_of_tree (h : Pure s) (htree : s'.Tree)
    (hkept : ∀ {id e}, s.catalog.find? id = some e → s'.catalog.find? id = some e)
    {id name : String} {n c : Ref Namespace} (hn : s.catalog.find? id = some (.nameSpace n))
    (hc : (s'.get n).children.find? name = some c) : (s.get n).children.find? name = some c ∨
      s.catalog.find? (id ++ "/" ++ name) = none ∧
        s'.catalog.find? (id ++ "/" ++ name) = some (.nameSpace c) := by
  obtain ⟨hname, hplaced⟩ := htree.child (hkept hn) hc
  cases hfound : s.catalog.find? (id ++ "/" ++ name) with
  | none => exact Or.inr ⟨rfl, hplaced.find?⟩
  | some e =>
      obtain ⟨m, rfl⟩ := Pure.isDirectory h hfound ((h.tree.isDirectory hn).child name)
      have hsame := hkept hfound
      rw [hplaced.find?] at hsame
      cases hsame
      rcases h.tree.parent hfound with hroot | ⟨id', n', name', hname', heq, hn', hchild⟩
      · exact absurd hroot (child_ne_root _ _)
      · obtain ⟨rfl, rfl⟩ := child_injective hname hname' heq
        rw [hn] at hn'
        cases hn'
        exact Or.inl hchild

end Store

namespace Batch

variable {names : List String} {s s' : Store}

/-- **A document that gives no feature changes nothing but namespaces.** -/
theorem Sound.onlyDirectories (h : Sound names s) {file : Path} (hfile : PlainPath file)
    (hnew : file.toString ∉ names) {content : Value} {excluded : List String} {readMe : ReadMe}
    (hrun : (Build.feature file content excluded readMe).run s = (.ok none, s')) :
    s.OnlyDirectories file s' := by
  have hpure := h.orderly.toSorted
  let call : BuildCall := ⟨file, content, excluded, readMe⟩
  obtain ⟨hsound, hkept, -⟩ := h.outcome hfile hnew (show Outcome call s none s' from .passed hrun)
  have hstay : ∀ {id e}, s.catalog.find? id = some e → s'.catalog.find? id = some e :=
    fun he => hkept.find? hsound.orderly.consistent he
  have htree := hsound.orderly.tree
  have hparents : Slashless file.parent.names := hfile.proper.slashless
  -- the document itself leaves the store as it is
  obtain ⟨x, s₁, hsite, hdocument⟩ := Action.run_bind_eq_ok hrun
  have hsame : s' = s₁ := by
    have hbuilt := (Build.document_built s₁ x content).2
    rw [hdocument] at hbuilt
    exact hbuilt none rfl
  subst hsame
  obtain ⟨e, s₁, hspace, hpure⟩ := Action.run_bind_eq_ok hsite
  cases hpure
  obtain ⟨n, s₂, hopens, hn, hfound⟩ := Build.namespaceOf_run h.orderly.tree h.orderly.labelled
    (fun e he => by
      obtain ⟨m, rfl⟩ := Pure.isDirectory h.orderly.toSorted he (Or.inl rfl)
      rfl) hparents readMe
  rw [hfound] at hspace
  -- at most the innermost namespace is described
  have hdescribed : s' = s₂ ∨ ∃ text, s' = s₂.modify n fun x => { x with description := text } := by
    split at hspace
    · rcases readMe with _ | (fault | text) <;> cases hspace
      · exact Or.inl rfl
      · exact Or.inr ⟨text, rfl⟩
    · cases hspace
      exact Or.inl rfl
  have hcatalog : s'.catalog = s₂.catalog := by
    rcases hdescribed with rfl | ⟨text, rfl⟩
    · rfl
    · rw [catalog_modify]
  refine ⟨hkept.entries, fun {e} he hkind => ?_, fun {id e} he => ?_,
    Pure.children_of_tree h.orderly.toSorted htree hstay, fun {id m} hm => ?_⟩
  · have hothers := hopens.others he hkind
    rcases hdescribed with rfl | ⟨text, rfl⟩
    · exact hothers
    · have hne : e ≠ .nameSpace n := by
        rintro rfl
        exact hkind rfl
      rw [content_modify_of_ne s₂ n _ hne, hothers]
  · rw [hcatalog] at he
    exact hopens.find?_new he
  · have hget := hopens.get_nameSpace h.orderly.tree hm
    rcases hdescribed with rfl | ⟨text, rfl⟩
    · exact ⟨_, _, hget, fun _ => rfl⟩
    · by_cases hinner : m = n
      · subst hinner
        have hid : id = directoryId file.parent.names :=
          (h.orderly.labelled hm).idOf.symm.trans
            ((hopens.built.grows.idOf (h.orderly.labelled hm).has).symm.trans hn.idOf)
        rw [get_modify_self s₂ m _ hn.has, hget]
        exact ⟨_, _, rfl, fun hne => absurd hid hne⟩
      · have hother : (s₂.modify n fun x => { x with description := text }).get m = s₂.get m :=
          get_eq_of_content_eq (content_modify_of_ne s₂ n _ fun heq =>
            hinner (Entry.nameSpace.inj heq))
        rw [hother]
        exact ⟨_, _, hget, fun _ => rfl⟩

variable (tree : FileTree) (settings : Settings) (base : Option Path)

/-- The sources of a batch that could be read and whose build was not refused, in their order. -/
def survivors : List Source → Work → List Source
  | [], _ => []
  | source :: sources, w =>
    match source.document.run w with
    | (.ok (some content), w) =>
      let file := knownAs base source.path
      let rest := survivors sources ((buildOne tree settings file source.path content).run w).2
      match (buildDocument tree settings file source.path content).run w.store with
      | (.ok _, _) => source :: rest
      | (.error _, _) => rest
    | (_, w) => survivors sources w

section

variable {tree settings base}

theorem buildDocument_follows {file path : Path} (hfile : PlainName file.toString) (content : Value)
    {ρ : Pairing} : Build.Follows .exact ρ (fun σ a b => Option.Rel (Build.SameRef σ) a b)
      (buildDocument tree settings file path content)
      (buildDocument tree settings file path content) := by
  unfold buildDocument
  exact .check_bind fun excluded _ => Build.feature_follows hfile content excluded _

/-- **Two runs of a batch on twins**, the second without what the first could not use. -/
theorem build_survivors {sources : List Source} {contents : List (Option Value)}
    (hgives : List.Forall₂ Source.Gives sources contents) {w w' v : Work} {batch : Batch}
    {ρ : Pairing} (h : Sound names w.store)
    (hfresh : Fresh names (List.zipWith (callFor tree settings base) sources contents))
    (htwins : Twins .exact ρ v.store w.store)
    (hrun : (build tree settings base sources).run w = (.ok batch, w')) :
    ∃ batch' v' σ, (build tree settings base (survivors tree settings base sources w)).run v =
        (.ok batch', v') ∧ ρ.LeParts σ ∧ Twins .exact σ v'.store w'.store ∧
      σ.Refs batch'.features batch.features := by
  induction hgives generalizing names w v batch ρ with
  | nil =>
      cases hrun
      exact ⟨{}, v, ρ, rfl, fun _ _ _ => id, htwins, .nil⟩
  | @cons source c sources contents hsource hgives ih =>
      have hfile : PlainPath (knownAs base source.path) :=
        hfresh.plain _ (List.mem_cons_self ..)
      have hnew : (knownAs base source.path).toString ∉ names := hfresh.new _ (List.mem_cons_self ..)
      obtain ⟨c', w₁, result, w₂, rest, hread, hone, hrest, rfl⟩ := build_cons_ok hrun
      obtain ⟨warnings, hgiven⟩ := hsource w
      rw [hgiven] at hread
      cases hread
      have h₁ : Sound names { w with warnings }.store := h
      have hsound := (h₁.outcome hfile hnew (buildRead_outcome h₁ hfile hnew hone)).1
      rw [survivors, hgiven]
      cases c with
      | none =>
          -- nothing was read, and nothing has changed
          cases hone
          obtain ⟨batch', v', σ, hrun', hfound⟩ := ih hsound hfresh.tail htwins hrest
          exact ⟨batch', v', σ, hrun', hfound⟩
      | some content =>
          dsimp only
          rw [show (buildOne tree settings (knownAs base source.path) source.path content).run
            { w with warnings } = (.ok result, w₂) from hone]
          rcases hbuild : (buildDocument tree settings (knownAs base source.path) source.path
            content).run w.store with ⟨fault | feature, s₁⟩
          · -- the build was refused, and the registry restored
            obtain ⟨rfl, hrestored, -⟩ := buildOne_refused h₁ hfile hnew hbuild hone
            obtain ⟨σ₁, hle₁, htwins₁⟩ := htwins.restored h.orderly.toSorted hrestored
            obtain ⟨batch', v', σ, hrun', hle, hfound⟩ := ih hsound hfresh.tail htwins₁ hrest
            exact ⟨batch', v', σ, hrun', hle₁.trans hle, hfound⟩
          · -- the build goes the same way in the other registry
            rw [buildRead, buildOne_run, hbuild] at hone
            cases hone
            have hname : PlainName (knownAs base source.path).toString := ⟨_, hfile, rfl⟩
            obtain ⟨a, t₁, σ₁, hbuild', hle₁, htwins₁, hresult⟩ :=
              (buildDocument_follows hname content v.store w.store htwins).1 result s₁ hbuild
            obtain ⟨warnings', hread'⟩ := hsource v
            have hone' : (buildRead tree settings base source (some content)).run
                { v with warnings := warnings' } = (.ok a, ⟨t₁, warnings'⟩) := by
              rw [buildRead, buildOne_run, hbuild']
            obtain ⟨batch', v', σ, hrun', hle, htwins', hrefs⟩ := ih (v := ⟨t₁, warnings'⟩) hsound
              hfresh.tail htwins₁ hrest
            refine ⟨batch'.record (knownAs base source.path).toString a, v', σ, ?_,
              (Pairing.leParts_of_le hle₁).trans hle, htwins', ?_⟩
            · dsimp only
              rw [build_cons_run hread', Action.run_bind_ok hone', Action.run_bind_ok hrun']
              rfl
            · cases hresult with
              | none => exact hrefs
              | some hr => exact .cons (hle _ _ nofun hr) hrefs

/-- A batch that comes to its end has come to each of its sources, with a sound registry. -/
theorem build_before {before after : List Source} {source : Source} {contents : List (Option Value)}
    (hreads : List.Forall₂ Source.Reads (before ++ source :: after) contents) {w w' : Work}
    {batch : Batch} (h : Sound names w.store) (hfresh : Fresh names
      (List.zipWith (callFor tree settings base) (before ++ source :: after) contents))
    (hrun : (build tree settings base (before ++ source :: after)).run w = (.ok batch, w')) :
    ∃ batch₀ w₀ names₀, (build tree settings base before).run w = (.ok batch₀, w₀) ∧
      Sound names₀ w₀.store ∧ PlainPath (knownAs base source.path) ∧
      (knownAs base source.path).toString ∉ names₀ := by
  induction before generalizing names contents w batch with
  | nil =>
      cases hreads
      exact ⟨{}, w, names, rfl, h, hfresh.plain _ (List.mem_cons_self ..),
        hfresh.new _ (List.mem_cons_self ..)⟩
  | cons first before ih =>
      cases hreads with
      | cons hfirst hreads =>
          obtain ⟨c, w₁, result, w₂, rest, hread, hone, hrest, -⟩ := build_cons_ok hrun
          obtain ⟨rfl, hstore⟩ := hfirst w c w₁ hread
          rw [← hstore] at h
          obtain ⟨hsound, -, -⟩ := h.outcome (hfresh.plain _ (List.mem_cons_self ..))
            (hfresh.new _ (List.mem_cons_self ..)) (buildRead_outcome h
              (hfresh.plain _ (List.mem_cons_self ..)) (hfresh.new _ (List.mem_cons_self ..)) hone)
          obtain ⟨batch₀, w₀, names₀, hrun₀, hfound⟩ := ih hreads hsound hfresh.tail hrest
          refine ⟨batch₀.record (knownAs base first.path).toString result, w₀, names₀, ?_, hfound⟩
          rw [build_cons_run hread, Action.run_bind_ok hone, Action.run_bind_ok hrun₀]
          rfl

theorem Outcomes.built_mem {calls : List BuildCall} {built : List (Ref Feature × BuildCall)}
    (h : Outcomes calls s built s') : ∀ {r call}, (r, call) ∈ built → call ∈ calls := by
  induction h with
  | nil => exact nofun
  | cons hout hrest ih =>
      intro r call hmem
      rcases List.mem_append.mp hmem with hmem | hmem
      · obtain ⟨r', -, heq⟩ := List.mem_map.mp hmem
        cases heq
        exact List.mem_cons_self ..
      · exact List.mem_cons_of_mem _ (ih hmem)

/-- The builds of other files change no feature's registration. -/
theorem Sound.featureOf?_outcomes {calls : List BuildCall}
    {built : List (Ref Feature × BuildCall)} (h : Sound names s) (hfresh : Fresh names calls)
    (hall : Outcomes calls s built s') {id : String}
    (hid : ∀ call ∈ calls, id ≠ call.file.toString) : s'.featureOf? id = s.featureOf? id := by
  refine Option.ext fun r => ?_
  rw [featureOf?_eq_some, featureOf?_eq_some, (h.outcomes hfresh hall).2]
  refine or_iff_left ?_
  rintro ⟨call, hmem, heq⟩
  exact hid call (hall.built_mem hmem) heq

/-- The build of a file registers its feature, if there is one. -/
theorem Sound.featureOf?_outcome {call : BuildCall} {result : Option (Ref Feature)}
    (h : Sound names s) (hfile : PlainPath call.file) (hnew : call.file.toString ∉ names)
    (hout : Outcome call s result s') : s'.featureOf? call.file.toString = result := by
  refine Option.ext fun r => ?_
  rw [featureOf?_eq_some, (h.outcome hfile hnew hout).2.2]
  refine ⟨?_, fun hsome => Or.inr ⟨rfl, hsome⟩⟩
  rintro (hold | ⟨-, hsome⟩)
  · exact absurd (h.named hold) hnew
  · exact hsome

/-- **Each source is among the features or among the skipped files**, in the order of the batch. -/
theorem build_partition {sources : List Source} {contents : List (Option Value)}
    (hreads : List.Forall₂ Source.Reads sources contents) {w w' : Work} {batch : Batch}
    (h : Sound names w.store)
    (hfresh : Fresh names (List.zipWith (callFor tree settings base) sources contents))
    (hrun : (build tree settings base sources).run w = (.ok batch, w')) :
    batch.features = (sources.map fun source => (knownAs base source.path).toString).filterMap
        w'.store.featureOf? ∧
      batch.skipped = (sources.map fun source => (knownAs base source.path).toString).filter
        fun file => (w'.store.featureOf? file).isNone := by
  induction hreads generalizing names w batch with
  | nil =>
      cases hrun
      exact ⟨rfl, rfl⟩
  | @cons source content sources contents hsource hreads ih =>
      set call := callFor tree settings base source content with hcall
      have hfile : PlainPath call.file := hfresh.plain call (List.mem_cons_self ..)
      have hnew : call.file.toString ∉ names := hfresh.new call (List.mem_cons_self ..)
      obtain ⟨c, w₁, result, w₂, rest, hread, hone, hrest, rfl⟩ := build_cons_ok hrun
      obtain ⟨rfl, hstore⟩ := hsource w c w₁ hread
      rw [← hstore] at h
      have hout : Outcome call w₁.store result w₂.store := buildRead_outcome h hfile hnew hone
      obtain ⟨hsound, -, -⟩ := h.outcome hfile hnew hout
      obtain ⟨hfeatures, hskipped⟩ := ih hsound hfresh.tail hrest
      -- the rest of the batch builds other files
      have hresult : w'.store.featureOf? (knownAs base source.path).toString = result := by
        obtain ⟨built, hall, -⟩ := build_outcomes hreads hsound hfresh.tail hrest
        rw [hsound.featureOf?_outcomes hfresh.tail hall ?_]
        · exact h.featureOf?_outcome hfile hnew hout
        · intro other hother heq
          exact (List.nodup_cons.mp hfresh.nodup).1 (List.mem_map.mpr ⟨other, hother, heq.symm⟩)
      cases result with
      | none =>
          exact ⟨hfeatures.trans (List.filterMap_cons_none hresult).symm,
            (congrArg (List.cons _) hskipped).trans
              (List.filter_cons_of_pos (by rw [hresult]; rfl)).symm⟩
      | some r =>
          exact ⟨(congrArg (List.cons r) hfeatures).trans (List.filterMap_cons_some hresult).symm,
            hskipped.trans (List.filter_cons_of_neg (by rw [hresult]; exact nofun)).symm⟩

end

/-- What a batch does for one of its sources, it does for that one alone. -/
structure Isolated (sources : List Source) (batch : Batch) (start w : Work) : Prop where
  /-- Without the sources that cannot be used the batch builds the same. -/
  survivors : ∃ batch' w' σ,
    (build tree settings base (survivors tree settings base sources start)).run start =
      (.ok batch', w') ∧ Twins .exact σ w'.store w.store ∧ σ.Refs batch'.features batch.features
  /-- A document that gives no feature changes nothing but namespaces. -/
  passed : ∀ before source after content, sources = before ++ source :: after →
    source.Gives (some content) → ∃ batch₀ w₀,
      (build tree settings base before).run start = (.ok batch₀, w₀) ∧
        ∀ s', (buildDocument tree settings (knownAs base source.path) source.path content).run
          w₀.store = (.ok none, s') → w₀.store.OnlyDirectories (knownAs base source.path) s'
  features : batch.features =
    (sources.map fun source => (knownAs base source.path).toString).filterMap w.store.featureOf?
  skipped : batch.skipped =
    (sources.map fun source => (knownAs base source.path).toString).filter fun file =>
      (w.store.featureOf? file).isNone

/-- **A broken document influences no other file.** -/
theorem build_isolated {tree : FileTree} {settings : Settings} {base : Option Path}
    {sources : List Source} {contents : List (Option Value)} {warnings : List Warning}
    {batch : Batch} {w : Work} (hgives : List.Forall₂ Source.Gives sources contents)
    (hplain : ∀ source ∈ sources, PlainPath (knownAs base source.path))
    (hdistinct : (sources.map fun source => (knownAs base source.path).toString).Nodup)
    (hrun : (build tree settings base sources).run { store := {}, warnings } = (.ok batch, w)) :
    Isolated tree settings base sources batch { store := {}, warnings } w := by
  have hreads : List.Forall₂ Source.Reads sources contents := hgives.imp fun _ _ h => h.reads
  have hfresh : Fresh [] (List.zipWith (callFor tree settings base) sources contents) :=
    fresh_calls hreads hplain hdistinct
  obtain ⟨hfeatures, hskipped⟩ := build_partition hreads sound_empty hfresh hrun
  refine ⟨?_, ?_, hfeatures, hskipped⟩
  · obtain ⟨batch', w', σ, hrun', -, htwins, hrefs⟩ := build_survivors hgives sound_empty hfresh
      (v := { store := {}, warnings }) Twins.exact_empty hrun
    exact ⟨batch', w', σ, hrun', htwins, hrefs⟩
  · rintro before source after content rfl -
    obtain ⟨batch₀, w₀, names, hrun₀, hsound, hfile, hnew⟩ :=
      build_before hreads sound_empty hfresh hrun
    exact ⟨batch₀, w₀, hrun₀, fun s' hpassed =>
      hsound.onlyDirectories hfile hnew (buildDocument_ok hpassed)⟩

private def noteTags (names : List String) : Value :=
  .list (names.map fun name => .ofFields [("name", .text name)])

private def noteStep (text : String) : Value :=
  .ofFields [("keyword", .text "Given "), ("text", .text text)]

private def noteOf (tags : List String) (steps : List Value) : Value :=
  .ofFields [("feature", .ofFields [("tags", noteTags tags), ("children", .list [
    .ofFields [("scenario", .ofFields [("tags", noteTags tags), ("steps", .list steps)])]])])]

/-- Files of two directories: a document that is malformed behind its tags, one that is excluded,
and one that cannot be read, before and between two that are built. -/
private def desk : List Source :=
  [⟨.ofString "desk/torn.feature", pure (some (noteOf ["@open"] [.ofFields []]))⟩,
    ⟨.ofString "desk/note.feature", pure (some (noteOf ["@open"] [noteStep "a note"]))⟩,
    ⟨.ofString "drawer/draft.feature", pure (some (noteOf ["@wip"] [noteStep "a draft"]))⟩,
    ⟨.ofString "drawer/lost.feature", pure none⟩,
    ⟨.ofString "desk/list.feature", pure (some (noteOf ["@open", "@long"] [noteStep "a list"]))⟩]

private def buildDesk : Job Batch :=
  build { workingDirectory := .ofString "/" } { excludedTags := [.text "@wip"] } none desk

/-- Two of the five files are built, as if the torn and the lost one were not there. -/
theorem build_isolated_desk : ∃ batch w, buildDesk.run { store := {} } = (.ok batch, w) ∧
    batch.skipped = ["desk/torn.feature", "drawer/draft.feature", "drawer/lost.feature"] ∧
    Isolated { workingDirectory := .ofString "/" } { excludedTags := [.text "@wip"] } none desk
      batch { store := {} } w := by
  have hpure (path : Path) (content : Option Value) :
      Source.Gives ⟨path, pure content⟩ content :=
    fun w => ⟨w.warnings, rfl⟩
  have hgives : List.Forall₂ Source.Gives desk _ :=
    .cons (hpure _ _) (.cons (hpure _ _) (.cons (hpure _ _) (.cons (hpure _ _)
      (.cons (hpure _ _) .nil))))
  have hknown : desk.map (fun source => knownAs none source.path) =
      [.ofString "desk/torn.feature", .ofString "desk/note.feature",
        .ofString "drawer/draft.feature", .ofString "drawer/lost.feature",
        .ofString "desk/list.feature"] := by decide +kernel
  have hplain : ∀ source ∈ desk, PlainPath (knownAs none source.path) := by
    intro source hsource
    have hmem := List.mem_map_of_mem (f := fun source => knownAs none source.path) hsource
    simp only [hknown, List.mem_cons, List.not_mem_nil, or_false] at hmem
    rcases hmem with h | h | h | h | h
    all_goals
      rw [h]
      exact plainPath_ofString (by decide) (by decide)
  have hskipped : (buildDesk.run { store := {} }).1.toOption.map (·.skipped) =
      some ["desk/torn.feature", "drawer/draft.feature", "drawer/lost.feature"] := by
    decide +kernel
  have hisolated (batch : Batch) (w : Work)
      (hrun : buildDesk.run { store := {} } = (.ok batch, w)) :=
    build_isolated hgives hplain (by decide +kernel) hrun
  generalize buildDesk.run { store := {} } = left at hskipped hisolated
  obtain ⟨fault | batch, w⟩ := left
  · cases hskipped
  · exact ⟨batch, w, rfl, Option.some.inj hskipped, hisolated batch w rfl⟩

end Batch

end StepTrace
