import Mathlib.Algebra.BigOperators.Group.List.Basic
import Mathlib.Algebra.Ring.Int.Defs
import StepTrace.Proofs.Batch.Alone
import StepTrace.Proofs.Batch.Isolation

/-!
# A batch as the sum of its documents

After any number of documents the registry can be told from their lone builds alone (`Gathered`): a
tag is what the lone builds tell of it, put together (`Tag.gather`), a directory is registered if one
of the files lies in it, and lists those that have been built, and the parts of each document are
there as its lone build has left them.  A document that is refused adds nothing.

A batch of documents that are at worst malformed therefore comes to its end in any order, with a
registry of this form (`build_gathered`).
-/

namespace StepTrace

open Store

/-! ## What is told of tags -/

namespace Tag

/-- The tag of which all these are told, if any is. -/
def gather : List Tag → Option Tag
  | [] => none
  | x :: rest => some { x with
      owners := (x :: rest).flatMap Tag.owners
      sites := (x :: rest).flatMap Tag.sites
      totalScenarios := ((x :: rest).map Tag.totalScenarios).sum }

theorem gather_append (told : List Tag) (y : Tag) :
    gather (told ++ [y]) = some (y.onto (gather told)) := by
  cases told with
  | nil => simp [gather, onto]
  | cons x rest => simp [gather, onto, plus, Int.add_assoc]

theorem gather_merge (told : List Tag) (new : Option Tag) :
    gather (told ++ new.toList) = merge (gather told) new := by
  cases new with
  | none => simp [merge_none]
  | some y => exact gather_append told y

theorem mem_owners_of_gather {told : List Tag} {x : Tag} (hx : gather told = some x)
    {owner : String} (howner : owner ∈ x.owners) : ∃ y ∈ told, owner ∈ y.owners := by
  cases told with
  | nil => cases hx
  | cons z rest =>
      cases hx
      exact List.mem_flatMap.mp howner

end Tag

namespace Batch

/-! ## Lone builds -/

/-- A document that was not refused, with what its lone build has left. -/
structure Lone where
  file : Path
  result : Option (Ref Feature)
  left : Store

/-- The lone build of a document, if it is not refused. -/
def loneOf (tree : FileTree) (settings : Settings) (base : Option Path) (document : Source → Value)
    (source : Source) : Option Lone :=
  match (buildDocument tree settings (knownAs base source.path) source.path
    (document source)).run {} with
  | (.ok result, left) => some ⟨knownAs base source.path, result, left⟩
  | (.error _, _) => none

namespace Lone

/-- The directory of the file. -/
def directory (y : Lone) : List String :=
  y.file.parent.names

/-- The record is that of a build, with the read-me file of the directory. -/
structure IsBuild (readMes : List String → ReadMe) (y : Lone) : Prop where
  plain : PlainPath y.file
  run : ∃ content excluded, (Build.feature y.file content excluded (readMes y.directory)).run {} =
    (.ok y.result, y.left)

end Lone

/-- What the lone builds tell of a tag. -/
def toldOf (ys : List Lone) (id : String) : List Tag :=
  ys.filterMap fun y => y.left.tagAt id

/-- The description of a directory, if the read-me file gives one. -/
def descriptionOf (readMe : ReadMe) : String :=
  match readMe.text with
  | .ok text => text
  | .error _ => ""

/-- The files of a directory that have been built. -/
def builtIn (ys : List Lone) (names : List String) : List String :=
  (ys.filter fun y => y.result.isSome && decide (y.directory = names)).map fun y => y.file.toString

/-- The namespace of a directory, without its children, if one of the files lies in it. -/
def spaceOf (readMes : List String → ReadMe) (ys : List Lone) (names : List String) :
    Option Namespace :=
  if ∃ y ∈ ys, names <+: y.directory then
    some { Namespace.fresh names with
      description := if names ∈ ys.map Lone.directory then descriptionOf (readMes names) else ""
      featureIds := builtIn ys names }
  else none

variable {readMes : List String → ReadMe} {names : List String} {ys : List Lone} {y : Lone}
variable {s s' : Store}

theorem toldOf_concat (ys : List Lone) (y : Lone) (id : String) :
    toldOf (ys ++ [y]) id = toldOf ys id ++ (y.left.tagAt id).toList := by
  cases h : y.left.tagAt id <;> simp [toldOf, h]

theorem builtIn_concat (ys : List Lone) (y : Lone) (names : List String) :
    builtIn (ys ++ [y]) names = builtIn ys names ++
      if names = y.directory then if y.result.isSome then [y.file.toString] else [] else [] := by
  unfold builtIn
  rw [List.filter_append, List.map_append]
  by_cases hname : names = y.directory
  · cases hresult : y.result <;> simp [hname, hresult]
  · have hname' : ¬ y.directory = names := fun h => hname h.symm
    simp [hname, hname']

theorem builtIn_of_not_mem (h : names ∉ ys.map Lone.directory) : builtIn ys names = [] := by
  unfold builtIn
  rw [List.map_eq_nil_iff, List.filter_eq_nil_iff]
  intro y hy hmem
  simp only [Bool.and_eq_true, decide_eq_true_eq] at hmem
  exact h (List.mem_map.mpr ⟨y, hy, hmem.2⟩)

/-- One more document opens its directories, and describes and lists in the innermost. -/
theorem spaceOf_concat (readMes : List String → ReadMe) (ys : List Lone) (y : Lone)
    (names : List String) : spaceOf readMes (ys ++ [y]) names =
      if names = y.directory then
        some { (spaceOf readMes ys names).getD (.fresh names) with
          description := descriptionOf (readMes names)
          featureIds := ((spaceOf readMes ys names).getD (.fresh names)).featureIds ++
            if y.result.isSome then [y.file.toString] else [] }
      else if names <+: y.directory then (spaceOf readMes ys names).or (some (.fresh names))
      else spaceOf readMes ys names := by
  have hsplit : (∃ z ∈ ys ++ [y], names <+: z.directory) ↔
      (∃ z ∈ ys, names <+: z.directory) ∨ names <+: y.directory := by
    simp [or_and_right, exists_or]
  have hmem : names ∈ (ys ++ [y]).map Lone.directory ↔
      names ∈ ys.map Lone.directory ∨ names = y.directory := by
    rw [List.map_append, List.mem_append, List.map_singleton, List.mem_singleton]
  have hnone : ¬ (∃ z ∈ ys, names <+: z.directory) → names ∉ ys.map Lone.directory := by
    intro hnot hin
    obtain ⟨z, hz, rfl⟩ := List.mem_map.mp hin
    exact hnot ⟨z, hz, List.prefix_refl _⟩
  unfold spaceOf
  simp only [hsplit, hmem, builtIn_concat]
  by_cases hopen : ∃ z ∈ ys, names <+: z.directory
  · -- the directory is there, and changes only if it is that of the file
    by_cases heq : names = y.directory
    · rw [if_pos (Or.inl hopen), if_pos hopen, if_pos heq, if_pos heq, if_pos (Or.inr heq)]
      rfl
    · rw [if_pos (Or.inl hopen), if_pos hopen, if_neg heq, if_neg heq, List.append_nil]
      simp only [heq, or_false, Option.some_or, ite_self]
  · -- if it comes in, then as a fresh namespace
    have hout := hnone hopen
    have hempty := builtIn_of_not_mem hout
    by_cases heq : names = y.directory
    · have hbegins : names <+: y.directory := heq ▸ List.prefix_refl _
      rw [if_pos (Or.inr hbegins), if_neg hopen, if_pos heq, if_pos heq, if_pos (Or.inr heq), hempty]
      rfl
    · simp only [heq, hopen, hout, hempty, false_or, if_false, List.append_nil]
      rfl

namespace Lone.IsBuild

variable (h : y.IsBuild readMes)
include h

theorem name : PlainName y.file.toString :=
  ⟨_, h.plain, rfl⟩

theorem slashless : Slashless y.directory :=
  h.plain.proper.slashless

/-- The read-me file of the directory could be read. -/
theorem text_eq : (readMes y.directory).text = .ok (descriptionOf (readMes y.directory)) := by
  obtain ⟨content, excluded, hrun⟩ := h.run
  obtain ⟨text, -, -, htext, -⟩ := (sound_empty.feature_adds h.plain (welcomes_empty _ _)
    content excluded).1 _ _ hrun
  rw [descriptionOf, htext]

theorem sound : Sound [y.file.toString] y.left := by
  obtain ⟨content, excluded, hrun⟩ := h.run
  have hout : Outcome ⟨y.file, content, excluded, readMes y.directory⟩ {} y.result y.left :=
    .of_run hrun
  exact (sound_empty.outcome h.plain List.not_mem_nil hout).1

/-- The tags are those of the tokens, and owned by parts of the file. -/
theorem own {id : String} {x : Tag} (hid : IsTag id) (hx : y.left.tagAt id = some x) :
    x.IsCanonical ∧ ∀ owner ∈ x.owners, Under y.file.toString owner := by
  obtain ⟨content, excluded, hrun⟩ := h.run
  obtain ⟨_, _, _, -, -, -, hadds⟩ := (sound_empty.feature_adds h.plain (welcomes_empty _ _)
    content excluded).1 _ _ hrun
  exact hadds.own hid hx

end Lone.IsBuild

/-- A directory is not described, or as its read-me file describes it. -/
theorem spaceOf_described (hlone : ∀ y ∈ ys, y.IsBuild readMes) {x : Namespace}
    (hx : spaceOf readMes ys names = some x) :
    x.description = "" ∨ readMes names = some (.ok x.description) := by
  rw [spaceOf] at hx
  split at hx
  · cases hx
    dsimp only
    split
    · rename_i hmem
      obtain ⟨y, hy, rfl⟩ := List.mem_map.mp hmem
      have htext := (hlone y hy).text_eq
      -- without a read-me file the text is empty
      rcases hreadMe : readMes y.directory with _ | result
      · exact Or.inl rfl
      · rw [hreadMe] at htext
        exact Or.inr (congrArg some htext)
    · exact Or.inl rfl
  · cases hx

/-! ## The invariant -/

/-- The registry holds what the lone builds have left, put together; of the documents, `names` are
the files that have been tried and `ys` those that were not refused. -/
structure Gathered (readMes : List String → ReadMe) (names : List String) (ys : List Lone)
    (s : Store) : Prop where
  sound : Sound names s
  lone : ∀ y ∈ ys, y.IsBuild readMes ∧ y.file.toString ∈ names
  nodup : (ys.map fun y => y.file.toString).Nodup
  tagAt : ∀ {id}, IsTag id → s.tagAt id = Tag.gather (toldOf ys id)
  spaceAt : ∀ {names}, Slashless names → s.spaceAt names = spaceOf readMes ys names
  copy : ∀ y ∈ ys, ∃ σ, Twins (.copy y.file.toString) σ s y.left
  /-- Nothing else is registered. -/
  known : ∀ {id e}, s.catalog.find? id = some e → IsTag id ∨ IsDirectory id ∨
    ∃ y ∈ ys, Under y.file.toString id ∧ (y.left.catalog.find? id).isSome

theorem gathered_empty (readMes : List String → ReadMe) : Gathered readMes [] [] {} where
  sound := sound_empty
  lone := nofun
  nodup := List.nodup_nil
  tagAt _ := rfl
  spaceAt _ := by simp [spaceOf, Store.spaceAt, Catalog.find?, OrderedMap.find?, OrderedMap.empty]
  copy := nofun
  known := nofun

namespace Gathered

variable {file : Path} (h : Gathered readMes names ys s)
include h

/-- The parts of other files are not under the name of this one. -/
theorem not_under (hfile : PlainPath file) (hnew : file.toString ∉ names) (hy : y ∈ ys) {id : String}
    (hid : Under y.file.toString id) : ¬ Under file.toString id := by
  intro hunder
  have hname : PlainName file.toString := ⟨file, hfile, rfl⟩
  have hsame := (h.lone y hy).1.name.featureFile.eq_of_under hname.featureFile hid hunder
  exact hnew (hsame ▸ (h.lone y hy).2)

/-- There is room for one more file. -/
theorem welcomes (hfile : PlainPath file) (hnew : file.toString ∉ names) :
    Welcomes s file (readMes file.parent.names) := by
  have hslash : Slashless file.parent.names := hfile.proper.slashless
  refine ⟨fun {id x} hx owner howner => ?_, fun {x} hx id hid => ?_, fun {x} hx => ?_⟩
  · obtain ⟨t, ht, -⟩ := find?_of_tagAt hx
    have htag : IsTag id := h.sound.orderly.fits ht
    rw [h.tagAt htag] at hx
    obtain ⟨z, hz, hmem⟩ := Tag.mem_owners_of_gather hx howner
    obtain ⟨y, hy, hyz⟩ := List.mem_filterMap.mp hz
    exact h.not_under hfile hnew hy (((h.lone y hy).1.own htag hyz).2 owner hmem)
  · rw [h.spaceAt hslash, spaceOf] at hx
    split at hx
    · cases hx
      obtain ⟨y, hy, rfl⟩ := List.mem_map.mp hid
      exact h.not_under hfile hnew (List.mem_of_mem_filter hy) (.refl _)
    · cases hx
  · rw [h.spaceAt hslash] at hx
    exact spaceOf_described (fun y hy => (h.lone y hy).1) hx

/-- **A document that is built or passed over adds its lone build.** -/
theorem add (hy : y.IsBuild readMes) (hnew : y.file.toString ∉ names) (hsound : Sound (y.file.toString :: names) s')
    (hkept : Kept s s')
    (hadds : Adds y.file (descriptionOf (readMes y.directory)) y.result.isSome y.left s s') :
    Gathered readMes (y.file.toString :: names) (ys ++ [y]) s' := by
  have hc := hsound.orderly.consistent
  have hlast : y ∈ ys ++ [y] := List.mem_append_right _ (List.mem_singleton_self y)
  constructor
  case sound => exact hsound
  case lone =>
    intro z hz
    rcases List.mem_append.mp hz with hold | hlast
    · exact ⟨(h.lone z hold).1, List.mem_cons_of_mem _ (h.lone z hold).2⟩
    · rw [List.mem_singleton.mp hlast]
      exact ⟨hy, List.mem_cons_self ..⟩
  case nodup =>
    rw [List.map_append, List.nodup_append]
    refine ⟨h.nodup, List.nodup_singleton _, fun a ha b hb heq => ?_⟩
    obtain ⟨z, hz, rfl⟩ := List.mem_map.mp ha
    rw [List.map_singleton, List.mem_singleton] at hb
    exact hnew (hb ▸ heq ▸ (h.lone z hz).2)
  case tagAt =>
    intro id hid
    rw [hadds.tags hid, h.tagAt hid, toldOf_concat, Tag.gather_merge]
  case spaceAt =>
    intro names hnames
    rw [spaceOf_concat, hadds.spaceAt hnames, h.spaceAt hnames]
    by_cases heq : names = y.file.parent.names
    · subst heq
      rfl
    · rw [if_neg heq]
      exact (if_neg heq).symm
  case copy =>
    intro z hz
    rcases List.mem_append.mp hz with hold | hlast
    · obtain ⟨σ, hcopy⟩ := h.copy z hold
      exact ⟨σ, hcopy.copy_kept hkept hc⟩
    · rw [List.mem_singleton.mp hlast]
      exact hadds.copy
  case known =>
    intro id e he
    -- An entry that the document added is a tag, a directory or lies under its file.
    rcases hadds.new he with hold | htag | hdirectory | ⟨hunder, hsome⟩
    · rcases h.known hold with htag | hdirectory | ⟨z, hz, hfound⟩
      · exact Or.inl htag
      · exact Or.inr (Or.inl hdirectory)
      · exact Or.inr (Or.inr ⟨z, List.mem_append_left _ hz, hfound⟩)
    · exact Or.inl htag
    · exact Or.inr (Or.inl hdirectory)
    · exact Or.inr (Or.inr ⟨y, hlast, hunder, hsome⟩)

/-- **A document that is refused adds nothing.** -/
theorem restored {file : String} (hback : Restored s s') (hsound : Sound (file :: names) s') :
    Gathered readMes (file :: names) ys s' := by
  have hc := h.sound.orderly.consistent
  have hfind (id : String) : s'.catalog.find? id = s.catalog.find? id := hback.find? id
  constructor
  case sound => exact hsound
  case lone => exact fun z hz => ⟨(h.lone z hz).1, List.mem_cons_of_mem _ (h.lone z hz).2⟩
  case nodup => exact h.nodup
  case tagAt =>
    intro id hid
    rw [← h.tagAt hid]
    exact tagAt_congr (hfind id) fun t ht => get_eq_of_content_eq (hback.registered ht)
  case spaceAt =>
    intro names hnames
    rw [← h.spaceAt hnames]
    refine spaceAt_congr (hfind _) fun n hn => congrArg Namespace.childless ?_
    exact get_eq_of_content_eq (hback.registered hn)
  case copy =>
    intro z hz
    obtain ⟨σ, hcopy⟩ := h.copy z hz
    exact ⟨σ, hcopy.copy_kept (hback.kept hc) hsound.orderly.consistent⟩
  case known =>
    intro id e he
    rw [hfind] at he
    exact h.known he

end Gathered

/-! ## Whole batches -/

section

variable {tree : FileTree} {settings : Settings} {base : Option Path} {document : Source → Value}
variable {source : Source} {w : Work}

theorem loneOf_isBuild (hfile : PlainPath (knownAs base source.path))
    (hreadMe : readMeOf tree source.path = readMes (knownAs base source.path).parent.names)
    (hlone : loneOf tree settings base document source = some y) : y.IsBuild readMes := by
  unfold loneOf at hlone
  split at hlone
  · rename_i result left hbuild
    cases hlone
    refine ⟨hfile, document source, excludedBy settings, ?_⟩
    have hrun := buildDocument_ok hbuild
    rw [hreadMe] at hrun
    exact hrun
  · cases hlone

/-- A document of a new file adds what its lone build has left. -/
theorem Sound.buildDocument_adds {file path : Path} (h : Sound names s) (hfile : PlainPath file)
    (settings : Settings) (hwelcome : Welcomes s file (readMeOf tree path)) (content : Value) :
    (∀ r' t, (buildDocument tree settings file path content).run {} = (.ok r', t) →
      ∃ text r s', (readMeOf tree path).text = .ok text ∧
        (buildDocument tree settings file path content).run s = (.ok r, s') ∧
        r.isSome = r'.isSome ∧ Adds file text r'.isSome t s s') ∧
    ∀ fault t, (buildDocument tree settings file path content).run {} = (.error fault, t) →
      isLocal fault →
      ∃ s', (buildDocument tree settings file path content).run s = (.error fault, s') := by
  obtain ⟨hbuilt, hrefused⟩ := buildDocument_leaves h.orderly hfile settings
    (fun _ => hwelcome.described) content
  refine ⟨fun r' t hrun => ?_, hrefused⟩
  obtain ⟨text, r, s', htext, hrun', hsome, hleaves⟩ := hbuilt r' t hrun
  exact ⟨text, r, s', htext, hrun', hsome, hleaves.adds hwelcome⟩

/-- **One document, after any others**: it is built, passed over or refused as it is alone. -/
theorem Gathered.buildRead (h : Gathered readMes names ys w.store)
    (hfile : PlainPath (knownAs base source.path))
    (hnew : (knownAs base source.path).toString ∉ names)
    (hreadMe : readMeOf tree source.path = readMes (knownAs base source.path).parent.names)
    (hlocal : ∀ fault s, (buildDocument tree settings (knownAs base source.path) source.path
      (document source)).run {} = (.error fault, s) → isLocal fault) :
    ∃ result w', (buildRead tree settings base source (some (document source))).run w =
        (.ok result, w') ∧
      Gathered readMes ((knownAs base source.path).toString :: names)
        (ys ++ (loneOf tree settings base document source).toList) w'.store := by
  set file := knownAs base source.path
  have hwelcome := h.welcomes hfile hnew
  rw [← hreadMe] at hwelcome
  obtain ⟨hbuilt, hrefused⟩ := h.sound.buildDocument_adds hfile settings hwelcome (document source)
  set call : BuildCall := ⟨file, document source, excludedBy settings, readMeOf tree source.path⟩
  rcases hlone : (buildDocument tree settings file source.path (document source)).run {} with
    ⟨fault | result, left⟩
  · -- refused here as alone
    have hnone : loneOf tree settings base document source = none := by
      rw [loneOf, hlone]
    obtain ⟨s₁, hbuild⟩ := hrefused fault left hlone (hlocal fault left hlone)
    obtain ⟨w', hrun, hback, hpure⟩ := buildOne_undone h.sound.orderly hfile
      (h.sound.isNew ⟨_, hfile, rfl⟩ hnew) hbuild (hlocal fault left hlone)
    have hout : Outcome call w.store none w'.store := .undone hback hpure
    have hsound := (h.sound.outcome hfile hnew hout).1
    rw [hnone, Option.toList_none, List.append_nil]
    exact ⟨none, w', hrun, h.restored hback hsound⟩
  · have hsome : loneOf tree settings base document source = some ⟨file, result, left⟩ := by
      rw [loneOf, hlone]
    have hy : Lone.IsBuild readMes ⟨file, result, left⟩ := loneOf_isBuild hfile hreadMe hsome
    obtain ⟨text, r, s', htext, hbuild, -, hadds⟩ := hbuilt result left hlone
    have hout : Outcome call w.store r s' := .of_run (buildDocument_ok hbuild)
    obtain ⟨hsound, hkept, -⟩ := h.sound.outcome hfile hnew hout
    have htext' : text = descriptionOf (readMes file.parent.names) := by
      rw [descriptionOf, ← hreadMe, htext]
    subst htext'
    rw [hsome, Option.toList_some]
    refine ⟨r, { w with store := s' }, ?_, h.add hy hnew hsound hkept hadds⟩
    rw [Batch.buildRead, buildOne_run, hbuild]

/-- **A batch of documents that are at worst malformed comes to its end**, and leaves what their lone
builds have left, put together. -/
theorem build_gathered {sources : List Source}
    (hgives : ∀ source ∈ sources, source.Gives (some (document source)))
    (hplain : ∀ source ∈ sources, PlainPath (knownAs base source.path))
    (hdistinct : (sources.map fun source => (knownAs base source.path).toString).Nodup)
    (hreadMe : ∀ source ∈ sources,
      readMeOf tree source.path = readMes (knownAs base source.path).parent.names)
    (hlocal : ∀ source ∈ sources, ∀ fault s, (buildDocument tree settings
      (knownAs base source.path) source.path (document source)).run {} = (.error fault, s) →
        isLocal fault)
    (h : Gathered readMes names ys w.store)
    (hnew : ∀ source ∈ sources, (knownAs base source.path).toString ∉ names) :
    ∃ batch w' names', (build tree settings base sources).run w = (.ok batch, w') ∧
      Gathered readMes names' (ys ++ sources.filterMap (loneOf tree settings base document))
        w'.store := by
  induction sources generalizing names ys w with
  | nil =>
      rw [List.filterMap_nil, List.append_nil]
      exact ⟨{}, w, names, rfl, h⟩
  | cons source sources ih =>
      obtain ⟨hgive, hgives⟩ := List.forall_mem_cons.mp hgives
      obtain ⟨hfile, hplain⟩ := List.forall_mem_cons.mp hplain
      obtain ⟨hfirst, hdistinct⟩ := List.nodup_cons.mp hdistinct
      obtain ⟨hreadMe₁, hreadMe⟩ := List.forall_mem_cons.mp hreadMe
      obtain ⟨hlocal₁, hlocal⟩ := List.forall_mem_cons.mp hlocal
      obtain ⟨hnew₁, hnew⟩ := List.forall_mem_cons.mp hnew
      obtain ⟨warnings, hread⟩ := hgive w
      have h₁ : Gathered readMes names ys { w with warnings }.store := h
      obtain ⟨result, w₁, hone, hgathered⟩ := h₁.buildRead hfile hnew₁ hreadMe₁ hlocal₁
      obtain ⟨batch, w', names', hrest, hgathered'⟩ := ih hgives hplain hdistinct hreadMe hlocal
        hgathered fun other hother hmem => by
          rcases List.mem_cons.mp hmem with heq | hold
          · exact hfirst (List.mem_map.mpr ⟨other, hother, heq⟩)
          · exact hnew other hother hold
      refine ⟨batch.record (knownAs base source.path).toString result, w', names', ?_, ?_⟩
      · rw [build_cons_run hread, Action.run_bind_ok hone, Action.run_bind_ok hrest]
        rfl
      · have hsplit : (source :: sources).filterMap (loneOf tree settings base document) =
            (loneOf tree settings base document source).toList ++
              sources.filterMap (loneOf tree settings base document) := by
          cases hlone : loneOf tree settings base document source <;> simp [hlone]
        rw [hsplit, ← List.append_assoc]
        exact hgathered'

end

end Batch

end StepTrace
