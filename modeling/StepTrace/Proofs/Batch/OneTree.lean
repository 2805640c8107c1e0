import StepTrace.Proofs.Batch.Arranged

/-!
# One tree of namespaces, in which every feature is placed once

Namespaces of files are found, and batches are built, in any order, from the empty registry.  What
is registered then is one tree (`Store.IsTree`): what a namespace has as a child is registered as
one, and the other way round.  Every registered feature is listed once in all the namespaces, in the
one that it names, and nothing else is listed (`Store.PlacesOnce`).  Which namespace a file gets
depends on its directories alone, and so does the identifier of that namespace
(`Visit.ByDirectory`).

All this is read off what each visit keeps (`Arranged.visit`), whether it comes to its end or not.
-/

namespace StepTrace

open Store

namespace Store

/-- The registered namespaces form one tree, which the identifiers and the children agree on. -/
structure IsTree (s : Store) : Prop where
  parent : ∀ n ∈ s.allNamespaces, (s.get n).id ≠ rootNamespaceId → ∃ p ∈ s.allNamespaces,
    (s.get n).parentId = some (s.get p).id ∧
      (s.get n).id = (s.get p).id ++ "/" ++ (s.get n).name ∧
        (s.get p).children.find? (s.get n).name = some n
  child : ∀ p ∈ s.allNamespaces, ∀ {name c}, (s.get p).children.find? name = some c →
    c ∈ s.allNamespaces ∧ (s.get c).parentId = some (s.get p).id ∧ (s.get c).name = name

/-- All that the namespaces list. -/
def listedFeatures (s : Store) : List String :=
  s.allNamespaces.flatMap fun n => (s.get n).featureIds

/-- Every registered feature is listed once, in the namespace that it names, and nothing else is. -/
structure PlacesOnce (s : Store) : Prop where
  once : ∀ r ∈ s.allFeatures, s.listedFeatures.count (s.get r).id = 1
  home : ∀ r ∈ s.allFeatures, ∃ n ∈ s.allNamespaces, (s.get n).id = (s.get r).namespaceId ∧
    (s.get r).id ∈ (s.get n).featureIds
  listed : ∀ id ∈ s.listedFeatures, ∃ r ∈ s.allFeatures, (s.get r).id = id

variable {s : Store} {files : List Path}

/-! ## What arranged registries are -/

theorem directoryId_eq (names : List String) :
    directoryId names = String.intercalate "/" (rootNamespaceId :: names) := by
  unfold directoryId
  generalize rootNamespaceId = first
  induction names generalizing first with
  | nil => rfl
  | cons name names ih =>
      rw [List.foldl_cons, ih, String.intercalate_cons_cons]
      cases names with
      | nil => simp [String.append_assoc]
      | cons next names =>
          rw [String.intercalate_cons_cons, String.intercalate_cons_cons]
          simp only [String.append_assoc]

namespace Arranged

variable (h : Arranged files s)
include h

/-- Every registered namespace is that of a directory, and fits it. -/
theorem tells {n : Ref Namespace} (hn : n ∈ s.allNamespaces) :
    ∃ names, Slashless names ∧ s.Placed (.nameSpace n) (directoryId names) ∧
      s.Tells names (s.get n).childless := by
  obtain ⟨id, hid⟩ := (mem_allNamespaces h.orderly.consistent).mp hn
  obtain ⟨names, hnames, rfl⟩ := h.orderly.tree.exists_names hid
  exact ⟨names, hnames, h.orderly.labelled hid, h.space hnames (spaceAt_of_find? hid)⟩

/-- A child has the name under which its parent has it, and names its parent. -/
theorem tells_child {id name : String} {n c : Ref Namespace}
    (hn : s.catalog.find? id = some (.nameSpace n)) (hname : '/' ∉ name.toList)
    (hc : s.catalog.find? (id ++ "/" ++ name) = some (.nameSpace c)) :
    (s.get c).name = name ∧ (s.get c).parentId = some id := by
  obtain ⟨names, hnames, rfl⟩ := h.orderly.tree.exists_names hn
  rw [← directoryId_concat] at hc
  have htells := h.space (slashless_concat.mpr ⟨hnames, hname⟩) (spaceAt_of_find? hc)
  have hsame : (s.get c).name = _ ∧ (s.get c).parentId = _ := ⟨htells.name, htells.parentId⟩
  rwa [Namespace.fresh_concat] at hsame

/-- **The namespaces of an arranged registry form a tree.** -/
theorem isTree : s.IsTree where
  parent n hn hroot := by
    have hc := h.orderly.consistent
    obtain ⟨id, hid⟩ := (mem_allNamespaces hc).mp hn
    have hself : (s.get n).id = id := (h.orderly.labelled hid).idOf
    rcases h.orderly.tree.parent hid with rfl | ⟨above, p, name, hname, rfl, hp, hchild⟩
    · exact absurd hself hroot
    · obtain ⟨rfl, hparent⟩ := h.tells_child hp hname hid
      have hid' : (s.get p).id = above := (h.orderly.labelled hp).idOf
      exact ⟨p, (mem_allNamespaces hc).mpr ⟨above, hp⟩, by rw [hparent, hid'], by rw [hself, hid'],
        hchild⟩
  child p hp {name c} hchild := by
    have hc := h.orderly.consistent
    obtain ⟨id, hid⟩ := (mem_allNamespaces hc).mp hp
    have hid' : (s.get p).id = id := (h.orderly.labelled hid).idOf
    obtain ⟨hname, hplaced⟩ := h.orderly.tree.child hid hchild
    obtain ⟨hsame, hparent⟩ := h.tells_child hid hname hplaced.find?
    exact ⟨(mem_allNamespaces hc).mpr ⟨_, hplaced.find?⟩, by rw [hparent, hid'], hsame⟩

/-- What a namespace lists are registered features that name it. -/
theorem feature_of_listed {n : Ref Namespace} (hn : n ∈ s.allNamespaces) {id : String}
    (hid : id ∈ (s.get n).featureIds) : ∃ r, s.catalog.find? id = some (.feature r) ∧
      s.catalog.find? (s.get r).namespaceId = some (.nameSpace n) := by
  obtain ⟨names, hnames, hplaced, htells⟩ := h.tells hn
  obtain ⟨r, hr, hspace⟩ := htells.listed id hid
  exact ⟨r, hr, by rw [hspace, hplaced.find?]⟩

theorem nodup_listedFeatures : s.listedFeatures.Nodup := by
  have hc := h.orderly.consistent
  refine List.nodup_flatMap.mpr ⟨fun n hn => ?_, ?_⟩
  · obtain ⟨names, -, -, htells⟩ := h.tells hn
    exact htells.nodup
  · have hnodup : s.allNamespaces.Nodup := by
      refine (nodup_ofKind hc h.orderly.labelled .nameSpace).filterMap fun e e' n he he' => ?_
      cases e <;> cases he
      cases e' <;> cases he'
      rfl
    -- a feature names one namespace only
    refine hnodup.imp_of_mem fun {n n'} hn hn' hne id hid hid' => hne ?_
    obtain ⟨r, hr, hspace⟩ := h.feature_of_listed hn hid
    obtain ⟨r', hr', hspace'⟩ := h.feature_of_listed hn' hid'
    rw [hr] at hr'
    cases hr'
    rw [hspace] at hspace'
    cases hspace'
    rfl

/-- **In an arranged registry every feature is placed once.** -/
theorem placesOnce : s.PlacesOnce := by
  have hc := h.orderly.consistent
  have hhome : ∀ r ∈ s.allFeatures, ∃ n ∈ s.allNamespaces, (s.get n).id = (s.get r).namespaceId ∧
      (s.get r).id ∈ (s.get n).featureIds := by
    intro r hr
    obtain ⟨id, hid⟩ := (mem_allFeatures hc).mp hr
    obtain ⟨p, -, -, -, hspace, x, hx, hlisted⟩ := h.feature hid
    obtain ⟨n, hn⟩ := find?_of_spaceAt hx
    rw [spaceAt_of_find? hn] at hx
    cases hx
    refine ⟨n, (mem_allNamespaces hc).mpr ⟨_, hn⟩, ?_, ?_⟩
    · rw [hspace]
      exact (h.orderly.labelled hn).idOf
    · rw [show (s.get r).id = id from (h.orderly.labelled hid).idOf]
      exact hlisted
  refine ⟨fun r hr => ?_, hhome, fun id hid => ?_⟩
  · obtain ⟨n, hn, -, hlisted⟩ := hhome r hr
    exact List.count_eq_one_of_mem h.nodup_listedFeatures (List.mem_flatMap.mpr ⟨n, hn, hlisted⟩)
  · obtain ⟨n, hn, hlisted⟩ := List.mem_flatMap.mp hid
    obtain ⟨r, hr, -⟩ := h.feature_of_listed hn hlisted
    exact ⟨r, (mem_allFeatures hc).mpr ⟨id, hr⟩, (h.orderly.labelled hr).idOf⟩

end Arranged

end Store

/-! ## Batches -/

/-- Reading the document leaves the registry alone, whatever comes of it. -/
def Source.Spares (source : Source) : Prop :=
  ∀ w, (source.document.run w).2.store = w.store

/-- The sources of a run leave the registry alone. -/
theorem Run.sources_spare (tree : FileTree) (features : Path) :
    ∀ source ∈ sources tree features, source.Spares := by
  intro source hsource w
  obtain ⟨path, -, rfl⟩ := List.mem_map.mp hsource
  dsimp only
  unfold readDocument
  cases tree.readText path >>= Gherkin.readFrom tree with
  | ok document => rfl
  | error fault =>
      dsimp only
      split <;> rfl

namespace Batch

variable {files : List Path} {tree : FileTree} {settings : Settings} {base : Option Path}
variable {source : Source} {sources : List Source} {w : Work}

/-- What is read from a source leaves the registry arranged. -/
theorem buildRead_arranged (tree : FileTree) (settings : Settings) (h : Arranged files w.store)
    (hfile : PlainPath (knownAs base source.path))
    (hnew : ∀ p ∈ files, p.toString ≠ (knownAs base source.path).toString)
    (content : Option Value) :
    Arranged (knownAs base source.path :: files)
        ((buildRead tree settings base source content).run w).2.store ∧
      KeepsSpaces w.store ((buildRead tree settings base source content).run w).2.store := by
  cases content with
  | none => exact ⟨h.mono (List.subset_cons_self _ _), .refl _⟩
  | some content => exact buildOne_arranged h hfile hnew tree settings source.path content

/-- **A batch leaves the registry arranged**, also if it is ended by a document. -/
theorem build_arranged (h : Arranged files w.store) (hspares : ∀ source ∈ sources, source.Spares)
    (hplain : ∀ source ∈ sources, PlainPath (knownAs base source.path))
    (hdistinct : ((files ++ sources.map fun source => knownAs base source.path).map
      Path.toString).Nodup) :
    Arranged (files ++ sources.map fun source => knownAs base source.path)
        ((build tree settings base sources).run w).2.store ∧
      KeepsSpaces w.store ((build tree settings base sources).run w).2.store := by
  induction sources generalizing files w with
  | nil => exact ⟨h.mono (List.subset_append_left _ _), .refl _⟩
  | cons source sources ih =>
      obtain ⟨hspare, hspares⟩ := List.forall_mem_cons.mp hspares
      obtain ⟨hfile, hplain⟩ := List.forall_mem_cons.mp hplain
      set file := knownAs base source.path
      have hall : file :: files ⊆ files ++ file :: sources.map fun source =>
          knownAs base source.path := by
        intro p hp
        rcases List.mem_cons.mp hp with rfl | hp
        · exact List.mem_append_right _ (List.mem_cons_self ..)
        · exact List.mem_append_left _ hp
      have hnew : ∀ p ∈ files, p.toString ≠ file.toString := by
        rw [List.map_append, List.nodup_append] at hdistinct
        exact fun p hp => hdistinct.2.2 _ (List.mem_map_of_mem hp) _ (List.mem_cons_self ..)
      rw [List.map_cons]
      -- A document that cannot be read ends the batch; the files before it are arranged already.
      rcases hread : source.document.run w with ⟨fault | content, w₁⟩
      · have hsame : w₁.store = w.store := by simpa [hread] using hspare w
        rw [build, Action.run_bind_error hread, hsame]
        exact ⟨h.mono fun p hp => hall (List.mem_cons_of_mem _ hp), .refl _⟩
      have hsame : w₁.store = w.store := by simpa [hread] using hspare w
      rw [← hsame] at h ⊢
      obtain ⟨hone, hkeeps⟩ := buildRead_arranged tree settings h hfile hnew content
      rw [build_cons_run hread, Action.run_bind]
      rcases hbuild : (buildRead tree settings base source content).run w₁ with
        ⟨fault | result, w₂⟩
      · rw [hbuild] at hone hkeeps
        exact ⟨hone.mono hall, hkeeps⟩
      rw [hbuild] at hone hkeeps
      have hfirst : Arranged (files ++ [file]) w₂.store :=
        hone.mono fun p hp => by simpa [or_comm] using hp
      rw [List.map_cons, List.append_cons] at hdistinct
      rw [List.append_cons]
      obtain ⟨hrest, hkeeps'⟩ := ih hfirst hspares hplain hdistinct
      dsimp only
      rw [Action.run_bind]
      rcases hlater : (build tree settings base sources).run w₂ with ⟨fault | batch, w₃⟩
      all_goals
        rw [hlater] at hrest hkeeps'
        exact ⟨hrest, hkeeps.trans hkeeps'⟩

end Batch

/-! ## Visits -/

/-- What may be done with a registry: the namespace of a file is found, or a batch is built. -/
inductive Visit where
  | find (file : String) (readMe : ReadMe)
  | batch (tree : FileTree) (settings : Settings) (base : Option Path) (sources : List Source)

namespace Visit

/-- What the visit leaves, whether it comes to its end or not. -/
def apply (w : Work) : Visit → Work
  | find file readMe => ((Job.build (Build.namespaceOf (.ofString file) readMe)).run w).2
  | batch tree settings base sources => ((Batch.build tree settings base sources).run w).2

/-- The sources whose documents are built. -/
def sources : Visit → List Source
  | find .. => []
  | batch _ _ _ sources => sources

/-- The files whose documents are built. -/
def files : Visit → List Path
  | find .. => []
  | batch _ _ base sources => sources.map fun source => Batch.knownAs base source.path

/-- What the visits leave, from the empty registry on. -/
def after (visits : List Visit) : Work :=
  visits.foldl apply { store := {} }

/-- A file gets a namespace: it is found for the file at some time, or the feature of the file is
registered in the end, and names it. -/
inductive Gets (visits : List Visit) : Path → Ref Namespace → Prop
  | found {before later : List Visit} {file : String} {readMe : ReadMe} {n : Ref Namespace}
      (hvisits : visits = before ++ find file readMe :: later)
      (hfound : ((Build.namespaceOf (.ofString file) readMe).run (after before).store).1 =
        .ok (.nameSpace n)) : Gets visits (.ofString file) n
  | built {visit : Visit} {p : Path} {r : Ref Feature} {n : Ref Namespace}
      (hvisit : visit ∈ visits) (hp : p ∈ visit.files)
      (hr : (after visits).store.catalog.find? p.toString = some (.feature r))
      (hn : (after visits).store.catalog.find? ((after visits).store.get r).namespaceId =
        some (.nameSpace n)) : Gets visits p n

/-- Files get the namespaces of their directories. -/
structure ByDirectory (visits : List Visit) : Prop where
  /-- Only the read-me file can be in the way. -/
  found : ∀ {before later file readMe}, visits = before ++ find file readMe :: later →
    (∀ fault, readMe ≠ some (.error fault)) →
      ∃ n, ((Build.namespaceOf (.ofString file) readMe).run (after before).store).1 =
        .ok (.nameSpace n)
  id : ∀ {p n}, Gets visits p n → n ∈ (after visits).store.allNamespaces ∧
    ((after visits).store.get n).id = String.intercalate "/" (rootNamespaceId :: p.parent.names)
  same : ∀ {p p' n n'}, Gets visits p n → Gets visits p' n' →
    (n = n' ↔ p.parent.names = p'.parent.names)

/-- The visits build plain files, each once and none of the given ones, from sources that leave the
registry alone. -/
structure Fresh (tried : List Path) (visits : List Visit) : Prop where
  spares : ∀ visit ∈ visits, ∀ source ∈ visit.sources, source.Spares
  plain : ∀ visit ∈ visits, ∀ p ∈ visit.files, PlainPath p
  distinct : ((tried ++ visits.flatMap files).map Path.toString).Nodup

variable {tried : List Path} {visits before later : List Visit} {visit : Visit} {w : Work}

theorem Fresh.append (h : Fresh tried (before ++ later)) :
    Fresh tried before ∧ Fresh (tried ++ before.flatMap files) later := by
  obtain ⟨hspares, hplain, hdistinct⟩ := h
  rw [List.flatMap_append, ← List.append_assoc] at hdistinct
  refine ⟨⟨fun v hv => hspares v (List.mem_append_left _ hv),
    fun v hv => hplain v (List.mem_append_left _ hv), ?_⟩,
    ⟨fun v hv => hspares v (List.mem_append_right _ hv),
      fun v hv => hplain v (List.mem_append_right _ hv), hdistinct⟩⟩
  rw [List.map_append] at hdistinct
  exact hdistinct.of_append_left

theorem Fresh.cons (h : Fresh tried (visit :: later)) :
    Fresh tried [visit] ∧ Fresh (tried ++ visit.files) later := by
  rw [← List.singleton_append] at h
  obtain ⟨hone, hrest⟩ := h.append
  rw [List.flatMap_singleton] at hrest
  exact ⟨hone, hrest⟩

/-- **Every visit leaves the registry arranged.** -/
theorem apply_arranged (h : Arranged tried w.store) (hfresh : Fresh tried [visit]) :
    Arranged (tried ++ visit.files) (visit.apply w).store ∧
      KeepsSpaces w.store (visit.apply w).store := by
  have hself : visit ∈ [visit] := List.mem_singleton_self visit
  cases visit with
  | find file readMe =>
      obtain ⟨n, s', -, harranged, hkeeps, hrun⟩ := Batch.namespaceOf_arranged h
        (Path.proper_ofString file) readMe
      have hstore : (apply w (find file readMe)).store = s' := by
        rcases hrun with hrun | ⟨fault, -, hrun⟩
        all_goals rw [apply, Job.build_run, hrun]
      rw [hstore]
      exact ⟨harranged.mono (List.subset_append_left _ _), hkeeps⟩
  | batch tree settings base sources =>
      have hplain := hfresh.plain _ hself
      have hdistinct := hfresh.distinct
      rw [List.flatMap_singleton] at hdistinct
      exact Batch.build_arranged h (hfresh.spares _ hself)
        (fun source hsource => hplain _ (List.mem_map_of_mem hsource)) hdistinct

/-- **Any number of visits leaves the registry arranged.** -/
theorem foldl_arranged (h : Arranged tried w.store) (hfresh : Fresh tried visits) :
    Arranged (tried ++ visits.flatMap files) (visits.foldl apply w).store ∧
      KeepsSpaces w.store (visits.foldl apply w).store := by
  induction visits generalizing tried w with
  | nil => exact ⟨h.mono (List.subset_append_left _ _), .refl _⟩
  | cons visit visits ih =>
      obtain ⟨hone, hrest⟩ := hfresh.cons
      obtain ⟨harranged, hkeeps⟩ := apply_arranged h hone
      obtain ⟨harranged', hkeeps'⟩ := ih harranged hrest
      rw [List.flatMap_cons, ← List.append_assoc]
      exact ⟨harranged', hkeeps.trans hkeeps'⟩

theorem after_arranged (hfresh : Fresh [] visits) :
    Arranged (visits.flatMap files) (after visits).store :=
  (foldl_arranged (w := { store := {} }) arranged_empty hfresh).1

/-- The namespace of a file is found, if the read-me file is not in the way, and is still there at
the end. -/
theorem find_placed (hfresh : Fresh [] visits) {file : String} {readMe : ReadMe}
    (hvisits : visits = before ++ find file readMe :: later) :
    ∃ n, (after visits).store.catalog.find? (directoryId (Path.ofString file).parent.names) =
        some (.nameSpace n) ∧
      (((Build.namespaceOf (.ofString file) readMe).run (after before).store).1 =
          .ok (.nameSpace n) ∨ ∃ fault, readMe = some (.error fault) ∧
        ((Build.namespaceOf (.ofString file) readMe).run (after before).store).1 =
          .error fault) := by
  subst hvisits
  obtain ⟨hbefore, hrest⟩ := hfresh.append
  obtain ⟨hone, hlater⟩ := hrest.cons
  have harranged := after_arranged hbefore
  obtain ⟨n, s', hplaced, -, -, hrun⟩ := Batch.namespaceOf_arranged harranged
    (Path.proper_ofString file) readMe
  have hstore : (apply (after before) (find file readMe)).store = s' := by
    rcases hrun with hrun | ⟨fault, -, hrun⟩
    all_goals rw [apply, Job.build_run, hrun]
  obtain ⟨hnext, -⟩ := apply_arranged harranged hone
  obtain ⟨-, hkeeps⟩ := foldl_arranged hnext hlater
  refine ⟨n, ?_, ?_⟩
  · rw [after, List.foldl_append, List.foldl_cons]
    exact hkeeps (hstore ▸ hplaced.find?)
  · rcases hrun with hrun | ⟨fault, hreadMe, hrun⟩
    · exact Or.inl (by rw [hrun])
    · exact Or.inr ⟨fault, hreadMe, by rw [hrun]⟩

/-- The namespace that a file gets is registered as that of its directory. -/
theorem Gets.placed (hfresh : Fresh [] visits) {p : Path} {n : Ref Namespace}
    (h : Gets visits p n) : Slashless p.parent.names ∧
      (after visits).store.catalog.find? (directoryId p.parent.names) = some (.nameSpace n) := by
  cases h with
  | @found _ _ file _ _ hvisits hfound =>
      refine ⟨(Path.proper_ofString file).slashless, ?_⟩
      obtain ⟨m, hm, hsame | ⟨fault, -, herror⟩⟩ := find_placed hfresh hvisits
      · rw [hfound] at hsame
        cases hsame
        exact hm
      · rw [hfound] at herror
        cases herror
  | @built visit _ r _ hvisit hp hr hn =>
      have hplain := hfresh.plain visit hvisit p hp
      refine ⟨hplain.proper.slashless, ?_⟩
      obtain ⟨q, hq, -, hname, hspace, -⟩ := (after_arranged hfresh).feature hr
      -- no other file has the same name
      have hmem : p ∈ visits.flatMap files := List.mem_flatMap.mpr ⟨visit, hvisit, hp⟩
      obtain rfl : p = q := List.inj_on_of_nodup_map hfresh.distinct hmem hq hname
      rw [← hspace]
      exact hn

/-- **Namespaces form one tree, in which every feature is placed once**, after any visits to an empty
registry that build plain files, each once, whether they come to their end or not; and a file gets
the namespace of its directory. -/
theorem one_tree (visits : List Visit)
    (hspares : ∀ visit ∈ visits, ∀ source ∈ visit.sources, source.Spares)
    (hplain : ∀ visit ∈ visits, ∀ p ∈ visit.files, PlainPath p)
    (hdistinct : ((visits.flatMap files).map Path.toString).Nodup) :
    (after visits).store.IsTree ∧ (after visits).store.PlacesOnce ∧ ByDirectory visits := by
  have hfresh : Fresh [] visits := ⟨hspares, hplain, hdistinct⟩
  have harranged := after_arranged hfresh
  have hid : ∀ {p n}, Gets visits p n →
      ((after visits).store.get n).id = directoryId p.parent.names := fun hgets =>
    (harranged.orderly.labelled (hgets.placed hfresh).2).idOf
  refine ⟨harranged.isTree, harranged.placesOnce, fun {before later file readMe} hvisits htext => ?_,
    fun {p n} hgets => ⟨?_, ?_⟩, fun {p p' n n'} hgets hgets' => ⟨?_, fun heq => ?_⟩⟩
  · obtain ⟨n, -, hfound | ⟨fault, hreadMe, -⟩⟩ := find_placed hfresh hvisits
    · exact ⟨n, hfound⟩
    · exact absurd hreadMe (htext fault)
  · exact (mem_allNamespaces harranged.orderly.consistent).mpr ⟨_, (hgets.placed hfresh).2⟩
  · rw [hid hgets, directoryId_eq]
  · rintro rfl
    exact directoryId_injective (hgets.placed hfresh).1 (hgets'.placed hfresh).1
      ((hid hgets).symm.trans (hid hgets'))
  · have hn := (hgets.placed hfresh).2
    rw [heq, (hgets'.placed hfresh).2] at hn
    cases hn
    rfl

/-- A feature with one scenario that has one step. -/
private def payment : Value :=
  .ofFields [("feature", .ofFields [("children", .list [.ofFields [("scenario", .ofFields [
    ("steps", .list [.ofFields [("keyword", .text "Given "), ("text", .text "a bill")]])])]])])]

/-- A feature whose only scenario has a malformed step. -/
private def halfPayment : Value :=
  .ofFields [("feature", .ofFields [("children", .list [.ofFields [("scenario", .ofFields [
    ("steps", .list [.ofFields []])])]])])]

private def paymentVisits : List Visit :=
  [find "specs/shop/cart.feature" none,
    batch { workingDirectory := .ofString "/" } {} none
      [⟨.ofString "specs/shop/pay.feature", pure (some payment)⟩,
        ⟨.ofString "specs/till/open.feature", pure (some halfPayment)⟩,
        ⟨.ofString "till/close.feature", pure (some payment)⟩],
    find "/specs/shop/till.feature" (some (.ok "All about the shop"))]

/-- A namespace is found before and after a batch in which one document of three is malformed, whose
namespace is undone. -/
theorem one_tree_payments :
    ((after paymentVisits).store.allNamespaces.map fun n =>
        ((after paymentVisits).store.get n).id) =
      ["requirements", "requirements/specs", "requirements/specs/shop", "requirements/till"] ∧
    (after paymentVisits).store.listedFeatures = ["specs/shop/pay.feature", "till/close.feature"] ∧
    (after paymentVisits).store.IsTree ∧ (after paymentVisits).store.PlacesOnce ∧
      ByDirectory paymentVisits := by
  have hfiles : paymentVisits.flatMap files = [.ofString "specs/shop/pay.feature",
      .ofString "specs/till/open.feature", .ofString "till/close.feature"] := by decide +kernel
  refine ⟨by decide +kernel, by decide +kernel, one_tree paymentVisits ?_ ?_ ?_⟩
  · simp only [paymentVisits, List.forall_mem_cons]
    exact ⟨nofun, by simp [sources]; exact ⟨fun _ => rfl, fun _ => rfl, fun _ => rfl⟩, nofun, nofun⟩
  · intro visit hvisit p hp
    have hmem := List.mem_flatMap.mpr ⟨visit, hvisit, hp⟩
    simp only [hfiles, List.mem_cons, List.not_mem_nil, or_false] at hmem
    rcases hmem with rfl | rfl | rfl
    all_goals exact plainPath_ofString (by decide) (by decide)
  · rw [hfiles]
    decide +kernel

end Visit

end StepTrace
