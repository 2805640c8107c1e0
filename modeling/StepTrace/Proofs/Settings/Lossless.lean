import StepTrace.Project.Settings
import StepTrace.Proofs.Files.Writing
import StepTrace.Proofs.Json.RoundTrip

/-!
# Saving and loading settings is lossless

Settings that consist of texts come back from their file as they were saved.  The text of the file
is a JSON text of a plain value, so it reads back (`Json.read?_write`); it is visible ASCII and line
feeds, so nothing is lost when line ends are unified (`unifyNewlines_write`); and the file is found
where it was written (`FileTree.readText_written`).

Loading looks at five keys only, one by one.  An object that has the values of the settings at some
of these keys, and lacks the others, therefore loads as the settings with the usual ones in the
missing places, whatever else it holds (`ofValue_of_tells`).  The whole file is the case in which no
key is missing.

The main statement is `save_lossless`.
-/

namespace StepTrace.Settings

variable {s : Settings}

/-- Settings as they are declared: texts and lists of texts. -/
structure Textual (s : Settings) : Prop where
  version : ∃ text, s.version = .text text
  featuresDirectory : ∃ text, s.featuresDirectory = .text text
  definitionsFile : ∃ text, s.definitionsFile = .text text
  excludedTags : ∃ texts : List String, s.excludedTags = texts.map .text
  stepKeywords : ∃ texts : List String, s.stepKeywords = texts.map .text

/-! ## Objects that give some of the settings -/

/-- The keys of a settings file. -/
def keys : List String :=
  ["version", "features_dir", "definitions_file", "exclude_tags", "step_keywords"]

/-- The settings at the given keys, with the usual ones elsewhere. -/
def only (s : Settings) (given : String → Bool) : Settings :=
  let usual : Settings := {}
  { version := if given "version" then s.version else usual.version
    featuresDirectory :=
      if given "features_dir" then s.featuresDirectory else usual.featuresDirectory
    definitionsFile :=
      if given "definitions_file" then s.definitionsFile else usual.definitionsFile
    excludedTags := if given "exclude_tags" then s.excludedTags else usual.excludedTags
    stepKeywords := if given "step_keywords" then s.stepKeywords else usual.stepKeywords }

/-- Among the fields, the given keys have the values of the settings, and the others are missing.
There may be any further fields. -/
def Tells (s : Settings) (given : String → Bool) (fields : List (Value × Value)) : Prop :=
  ∀ key ∈ keys, Value.findField? key fields = if given key then s.toValue.lookup? key else none

theorem ofValue_of_tells {given : String → Bool} {fields : List (Value × Value)}
    (h : s.Tells given fields) : ofValue (.map fields) = .ok (s.only given) := by
  have single (b : Bool) (v usual : Value) :
      (if b then some v else none).getD usual = if b then v else usual := by
    cases b <;> rfl
  have several (b : Bool) (items usual : List Value) :
      (if b then Value.list items else .list usual).elements
        = .ok (if b then items else usual) := by
    cases b <;> rfl
  have hversion : Value.findField? "version" fields
      = if given "version" then some s.version else none := h "version" (by simp [keys])
  have hfeatures : Value.findField? "features_dir" fields
      = if given "features_dir" then some s.featuresDirectory else none :=
    h "features_dir" (by simp [keys])
  have hdefinitions : Value.findField? "definitions_file" fields
      = if given "definitions_file" then some s.definitionsFile else none :=
    h "definitions_file" (by simp [keys])
  have htags : Value.findField? "exclude_tags" fields
      = if given "exclude_tags" then some (.list s.excludedTags) else none :=
    h "exclude_tags" (by simp [keys])
  have hkeywords : Value.findField? "step_keywords" fields
      = if given "step_keywords" then some (.list s.stepKeywords) else none :=
    h "step_keywords" (by simp [keys])
  simp only [ofValue, Value.lookup?, hversion, hfeatures, hdefinitions, htags, hkeywords, single,
    several]
  rfl

/-- The object of the settings gives all of them. -/
theorem tells_toValue (s : Settings) :
    ∃ fields, s.toValue = .map fields ∧ s.Tells (fun _ => true) fields :=
  ⟨_, rfl, fun _ _ => rfl⟩

/-! ## The text of the file -/

theorem read_of_tells {given : String → Bool} {fields : List (Value × Value)} {text : String}
    (htext : Json.read? text = some (.map fields)) (h : s.Tells given fields) (path : String) :
    read path text = .ok (s.only given) := by
  simp only [read, htext, Value.isMap, if_true]
  exact ofValue_of_tells h

theorem Textual.plain_toValue (h : s.Textual) : Json.Plain s.toValue := by
  obtain ⟨version, hversion⟩ := h.version
  obtain ⟨features, hfeatures⟩ := h.featuresDirectory
  obtain ⟨definitions, hdefinitions⟩ := h.definitionsFile
  obtain ⟨tags, htags⟩ := h.excludedTags
  obtain ⟨keywords, hkeywords⟩ := h.stepKeywords
  have plainList (texts : List String) : Json.Plain (.list (texts.map .text)) :=
    .list fun v hv => by
      obtain ⟨text, -, rfl⟩ := List.mem_map.mp hv
      exact .text text
  rw [toValue, hversion, hfeatures, hdefinitions, htags, hkeywords]
  refine .map (by simp) fun field hfield => ?_
  simp only [List.mem_cons, List.not_mem_nil, or_false] at hfield
  rcases hfield with rfl | rfl | rfl | rfl | rfl
  · exact .text version
  · exact .text features
  · exact .text definitions
  · exact plainList tags
  · exact plainList keywords

theorem Textual.read?_write (h : s.Textual) : Json.read? s.write = some s.toValue :=
  Json.read?_write (.indented 2) h.plain_toValue (by simp [Json.Blanks, Json.isBlank])

theorem Textual.clean_write (h : s.Textual) : Json.Clean s.write.toList := by
  rw [write, String.toList_append]
  exact (Json.clean_writeAt (.indented 2) h.plain_toValue 0).append (by simp [Json.Clean])

theorem unifyNewlines_of_clean {text : List Char} (h : Json.Clean text) :
    Text.unifyNewlines text = text := by
  induction text with
  | nil => rfl
  | cons c text ih =>
      have hreturn : c ≠ '\r' := by
        rintro rfl
        simpa [Json.IsPrintableAscii] using h '\r' (by simp)
      have hrest := ih fun d hd => h d (List.mem_cons_of_mem c hd)
      rw [Text.unifyNewlines.eq_def]
      split <;> simp_all

theorem Textual.read_write (h : s.Textual) (path : String) : read path s.write = .ok s := by
  obtain ⟨fields, hfields, htells⟩ := tells_toValue s
  exact read_of_tells (hfields ▸ h.read?_write) htells path

/-! ## The file -/

/-- A file that can be read is there. -/
theorem isSaved_of_readText {tree : FileTree} {root : Path} {text : String}
    (h : tree.readText (file root) = .ok text) : isSaved tree root = true := by
  unfold FileTree.readText at h
  unfold isSaved FileTree.exists? FileTree.find?
  cases hresolve : tree.resolve (file root) with
  | error fault => simp [hresolve, throw, throwThe, MonadExceptOf.throw] at h
  | ok names =>
      cases hnode : tree.node? names with
      | none => simp [hresolve, hnode, throw, throwThe, MonadExceptOf.throw] at h
      | some node => simp [hnode]

theorem load_of_readText {tree : FileTree} {root : Path} {text : String}
    (h : tree.readText (file root) = .ok text) :
    load tree root = read (file root).toString text := by
  simp [load, isSaved_of_readText h, h, bind, Except.bind]

/-- What becomes of settings that were saved. -/
structure SavedIn (s : Settings) (saved : FileTree) (root : Path) : Prop where
  isSaved : isSaved saved root = true
  /-- The file holds the text of the settings. -/
  text : saved.readText (file root) = .ok s.write
  load : load saved root = .ok s
  loadOrUsual : loadOrUsual saved root = .ok s
  /-- Saving what was loaded leaves every file as it is. -/
  again : ∀ loaded, Settings.load saved root = .ok loaded → loaded.save saved root = .ok saved

theorem save_eq_ok {tree saved : FileTree} {root : Path} : s.save tree root = .ok saved ↔
    ∃ made, tree.ensureDirectories (directory root) = .ok made
      ∧ made.writeText (file root) s.write = .ok saved := by
  unfold save
  cases tree.ensureDirectories (directory root) <;> simp [bind, Except.bind]

/-- Where settings were saved, others can be, and then it is as if only these had been saved. -/
theorem save_over {tree saved : FileTree} {root : Path} (h : s.save tree root = .ok saved)
    (s' : Settings) : ∃ anew, s'.save saved root = .ok anew ∧ s'.save tree root = .ok anew := by
  obtain ⟨made, hmade, hwritten⟩ := save_eq_ok.mp h
  obtain ⟨names, hresolve, -, -⟩ := FileTree.written_resolve hwritten
  obtain ⟨there, hthere, hdirectory, -⟩ := FileTree.resolve_child_eq_ok.mp hresolve
  have hensured : saved.ensureDirectories (directory root) = .ok saved :=
    FileTree.ensureDirectories_of_directory
      (FileTree.isDirectory_iff.mpr ⟨there, hthere, hdirectory⟩)
  obtain ⟨anew, hanew, hfirst⟩ := FileTree.writeText_over hwritten s'.write
  exact ⟨anew, save_eq_ok.mpr ⟨saved, hensured, hanew⟩, save_eq_ok.mpr ⟨made, hmade, hfirst⟩⟩

/-- Saving once more changes nothing: the directory is there, and the file holds the text. -/
theorem save_again {tree saved : FileTree} {root : Path} (h : s.save tree root = .ok saved) :
    s.save saved root = .ok saved := by
  obtain ⟨anew, hanew, hfirst⟩ := save_over h s
  rw [h] at hfirst
  rwa [← Except.ok.inj hfirst] at hanew

theorem Textual.savedIn (h : s.Textual) {tree saved : FileTree} {root : Path}
    (hsave : s.save tree root = .ok saved) : s.SavedIn saved root := by
  obtain ⟨made, -, hwritten⟩ := save_eq_ok.mp hsave
  have htext : saved.readText (file root) = .ok s.write := by
    rw [FileTree.readText_written hwritten, unifyNewlines_of_clean h.clean_write,
      String.ofList_toList]
  have hthere := isSaved_of_readText htext
  have hload : Settings.load saved root = .ok s := by
    rw [load_of_readText htext, h.read_write]
  refine ⟨hthere, htext, hload, by rw [Settings.loadOrUsual, if_pos hthere, hload], ?_⟩
  intro loaded hloaded
  obtain rfl : s = loaded := by
    rw [hload] at hloaded
    exact Except.ok.inj hloaded
  exact save_again hsave

/-- In a project directory, settings can be saved unless a file stands where their directory should
be, or a directory where their file should be. -/
theorem exists_saved (s : Settings) {tree : FileTree} {root : Path} (hrooted : tree.Rooted)
    (hroot : tree.isDirectory root = true) (hdirectory : tree.isFile (directory root) = false)
    (hfile : tree.isDirectory (file root) = false) : ∃ saved, s.save tree root = .ok saved := by
  obtain ⟨there, hthere, hnode⟩ := FileTree.isDirectory_iff.mp hroot
  have hplace : tree.resolve (directory root) = .ok (there ++ [".featurelink"]) :=
    FileTree.resolve_child_eq_ok.mpr ⟨there, hthere, hnode, by simp [FileTree.stepInto]⟩
  -- However the directory comes to be there, the file is no directory afterwards either.
  obtain ⟨made, hmade, hmadeplace, hmadenode, hothers⟩ : ∃ made,
      tree.ensureDirectories (directory root) = .ok made
        ∧ made.resolve (directory root) = .ok (there ++ [".featurelink"])
        ∧ made.node? (there ++ [".featurelink"]) = some .directory
        ∧ ∀ other ≠ there ++ [".featurelink"], made.node? other = tree.node? other := by
    cases hfound : tree.node? (there ++ [".featurelink"]) with
    | none =>
        have hfree : tree.node? (there ++ [".featurelink"]) ≠ some .directory := by simp [hfound]
        have hnew := FileTree.makeDirectory_new hplace hfound (by simpa using hnode)
        refine ⟨tree.put (there ++ [".featurelink"]) .directory, ?_,
          FileTree.resolve_put hfree _ hplace, FileTree.node?_put_self (by simp) _,
          fun other hother => FileTree.node?_put_of_ne hother _⟩
        rw [FileTree.ensureDirectories, hnew]
    | some node =>
        cases node with
        | file text => simp [FileTree.isFile, FileTree.find?, hplace, hfound] at hdirectory
        | directory =>
            exact ⟨tree, FileTree.ensureDirectories_of_directory
              (FileTree.isDirectory_iff.mpr ⟨_, hplace, hfound⟩), hplace, hfound, fun _ _ => rfl⟩
  have hfileplace : made.resolve (file root) = .ok (there ++ [".featurelink"] ++ ["config.json"]) :=
    FileTree.resolve_child_eq_ok.mpr ⟨_, hmadeplace, hmadenode, by simp [FileTree.stepInto]⟩
  have hfree : made.node? (there ++ [".featurelink"] ++ ["config.json"]) ≠ some .directory := by
    intro hbad
    rw [hothers _ (by simp)] at hbad
    have habove := hrooted (there ++ [".featurelink"] ++ ["config.json"]) (by rw [hbad]; simp)
    rw [List.dropLast_concat] at habove
    have hfound : tree.isDirectory (file root) = true :=
      FileTree.isDirectory_iff.mpr ⟨_, FileTree.resolve_child_eq_ok.mpr
        ⟨_, hplace, habove, by simp [FileTree.stepInto]⟩, hbad⟩
    simp [hfile] at hfound
  exact ⟨_, save_eq_ok.mpr ⟨made, hmade, FileTree.writeText_eq_ok.mpr
    ⟨_, hfileplace, hfree, by simpa using hmadenode, rfl⟩⟩⟩

/-! ## Lossless settings -/

/-- Nothing is lost of the settings in their file. -/
structure Lossless (s : Settings) : Prop where
  /-- Wherever they were saved, they are found again. -/
  saved : ∀ {tree saved root}, s.save tree root = .ok saved → s.SavedIn saved root
  /-- They can be saved in any project directory. -/
  saves : ∀ {tree : FileTree} {root}, tree.Rooted → tree.isDirectory root = true →
    tree.isFile (directory root) = false → tree.isDirectory (file root) = false →
    ∃ saved, s.save tree root = .ok saved
  /-- Their text is ASCII. -/
  ascii : ∀ c ∈ s.write.toList, c.toNat < 128
  /-- A file with some of them, and with anything else, is loaded as those, and the usual ones in
  the missing places. -/
  partly : ∀ {tree root text given fields}, tree.readText (file root) = .ok text →
    Json.read? text = some (.map fields) → s.Tells given fields →
    load tree root = .ok (s.only given) ∧ loadOrUsual tree root = .ok (s.only given)
  /-- There are such files for any choice of them and any further plain fields, in any order. -/
  written : ∀ {given fields layout}, (fields.map Prod.fst).Nodup →
    (∀ field ∈ fields, Json.Plain field.2) → s.Tells given (fields.map Json.keyed) →
    ∀ path, read path (Json.write layout (.ofFields fields) ++ "\n") = .ok (s.only given)

/-- Settings that consist of texts are saved and loaded without loss. -/
theorem save_lossless (h : s.Textual) : s.Lossless where
  saved := h.savedIn
  saves := s.exists_saved
  ascii c hc := by
    rcases h.clean_write c hc with hprintable | rfl
    · exact Nat.lt_trans hprintable.2 (by decide)
    · decide
  partly {tree root text given fields} htext hread htells := by
    have hload : load tree root = .ok (s.only given) := by
      rw [load_of_readText htext, read_of_tells hread htells]
    exact ⟨hload, by rw [loadOrUsual, if_pos (isSaved_of_readText htext), hload]⟩
  written {given fields layout} hnodup hplain htells path := by
    have hblank : Json.Blanks "\n".toList := by simp [Json.Blanks, Json.isBlank]
    exact read_of_tells (Json.read?_write layout (.map hnodup hplain) hblank) htells path

/-- Quotes, control characters and characters beyond the first plane in a new project, and a file
that names a features directory and an owner only. -/
theorem save_lossless_new_project :
    ∃ (s : Settings) (tree saved : FileTree), s.Textual ∧ s.version = .text "\"\\\n\x00\x7fé😀"
      ∧ s.save tree tree.workingDirectory = .ok saved
      ∧ load saved tree.workingDirectory = .ok s
      ∧ read "config.json" (Json.write .compact (.ofFields
          [("features_dir", s.featuresDirectory), ("owner", .list [.null])]) ++ "\n")
        = .ok { featuresDirectory := s.featuresDirectory } := by
  let s : Settings :=
    { version := .text "\"\\\n\x00\x7fé😀", featuresDirectory := .text "späts"
      excludedTags := [.text "@wip", .text ""], stepKeywords := [] }
  let tree : FileTree := { nodes := ⟨[(["p"], .directory)]⟩, workingDirectory := ⟨"/", ["p"]⟩ }
  have htextual : s.Textual :=
    ⟨⟨_, rfl⟩, ⟨_, rfl⟩, ⟨_, rfl⟩, ⟨["@wip", ""], rfl⟩, ⟨[], rfl⟩⟩
  have hlossless := save_lossless htextual
  obtain ⟨saved, hsaved⟩ : ∃ saved, s.save tree ⟨"/", ["p"]⟩ = .ok saved :=
    hlossless.saves (FileTree.rooted_singleton _ _) (by decide) (by decide) (by decide)
  have htells : s.Tells (· == "features_dir")
      ([("features_dir", s.featuresDirectory), ("owner", .list [.null])].map Json.keyed) := by
    intro key hkey
    simp only [keys, List.mem_cons, List.not_mem_nil, or_false] at hkey
    rcases hkey with rfl | rfl | rfl | rfl | rfl <;> rfl
  refine ⟨s, tree, saved, htextual, rfl, hsaved, (hlossless.saved hsaved).load, ?_⟩
  refine hlossless.written (by simp) ?_ htells "config.json"
  intro field hfield
  simp only [List.mem_cons, List.not_mem_nil, or_false] at hfield
  rcases hfield with rfl | rfl
  · exact .text "späts"
  · exact .list (by simpa using Json.Plain.null)

end StepTrace.Settings
