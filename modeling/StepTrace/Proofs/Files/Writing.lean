import StepTrace.Files.Tree
import StepTrace.Proofs.OrderedMap

/-!
# Writing files and making directories

A path is followed through directories only.  Something that is put in a place where there was no
directory is not on the way of any path that could be followed before, so all such paths lead to the
same places as before (`resolve_put`).  A text written to a file is therefore read from there again
(`readText_written`), and another text can be written over it (`writeText_over`).

A directory is made where nothing was, so everything that could be found before can be found
afterwards (`FileTree.Within`).
-/

namespace StepTrace.FileTree

variable {t t' : FileTree} {p q : Path} {names : List String}

/-- Whatever is in the tree is in a directory of the tree. -/
def Rooted (t : FileTree) : Prop :=
  ∀ names, t.node? names ≠ none → t.node? names.dropLast = some .directory

theorem rooted_singleton (name : String) (workingDirectory : Path) :
    Rooted { nodes := ⟨[([name], .directory)]⟩, workingDirectory } := by
  intro names hnames
  by_cases heq : [name] = names
  · rw [← heq]
    rfl
  · cases names with
    | nil => rfl
    | cons first names => simp [node?, OrderedMap.find?, heq] at hnames

/-! ## Following a path -/

/-- Where a name leads from a directory. -/
def stepInto (here : List String) (name : String) : List String :=
  if name = ".." then here.dropLast else here ++ [name]

theorem follow_concat (t : FileTree) (here names : List String) (name : String) :
    t.follow here (names ++ [name]) =
      match t.follow here names with
      | .error fault => .error fault
      | .ok there =>
        match t.node? there with
        | none => .error .notFound
        | some (.file _) => .error .notDirectory
        | some .directory => .ok (stepInto there name) := by
  induction names generalizing here with
  | nil =>
      cases hnode : t.node? here with
      | none => simp only [List.nil_append, follow, hnode]
      | some node => cases node <;> simp only [List.nil_append, follow, stepInto, hnode]
  | cons first names ih =>
      simp only [List.cons_append, follow]
      cases t.node? here with
      | none => rfl
      | some node =>
          cases node with
          | file text => rfl
          | directory => exact ih _

theorem names_join_child (p q : Path) (name : String) :
    (p.join (q.child name)).names = (p.join q).names ++ [name] := by
  unfold Path.join Path.child
  split <;> simp

/-- A path to something inside a directory leads on from where the path of the directory leads. -/
theorem resolve_child_eq_ok {name : String} {names : List String} :
    t.resolve (p.child name) = .ok names ↔
      ∃ there, t.resolve p = .ok there ∧ t.node? there = some .directory
        ∧ names = stepInto there name := by
  rw [resolve, names_join_child, follow_concat, ← resolve]
  cases t.resolve p with
  | error fault => simp
  | ok there =>
      cases hnode : t.node? there with
      | none => simp [hnode]
      | some node => cases node <;> simp [hnode, eq_comm]

theorem isDirectory_iff : t.isDirectory p = true ↔
    ∃ names, t.resolve p = .ok names ∧ t.node? names = some .directory := by
  cases h : t.resolve p <;> simp [isDirectory, find?, h]

theorem isDirectory_iff_find? : t.isDirectory q = true ↔ t.find? q = some .directory := by
  simp [isDirectory]

theorem isFile_iff : t.isFile q = true ↔
    ∃ names text, t.resolve q = .ok names ∧ t.node? names = some (.file text) := by
  cases hresolve : t.resolve q with
  | error fault => simp [isFile, find?, hresolve]
  | ok names =>
      rcases hnode : t.node? names with _ | _ | text <;> simp [isFile, find?, hresolve, hnode]

theorem isFile_of_readText {text : String} (h : t.readText q = .ok text) : t.isFile q = true := by
  unfold readText at h
  cases hresolve : t.resolve q with
  | error fault => simp [hresolve, throw, throwThe, MonadExceptOf.throw] at h
  | ok names =>
      rcases hnode : t.node? names with _ | _ | found <;>
        simp [hresolve, hnode, throw, throwThe, MonadExceptOf.throw] at h
      exact isFile_iff.mpr ⟨names, found, hresolve, hnode⟩

theorem isDirectory_eq_false_of_isFile (h : t.isFile q = true) : t.isDirectory q = false := by
  obtain ⟨names, text, hresolve, hnode⟩ := isFile_iff.mp h
  simp [isDirectory, find?, hresolve, hnode]

/-! ## Putting something somewhere -/

theorem ne_nil_of_not_directory {names : List String} (h : t.node? names ≠ some .directory) :
    names ≠ [] := by
  rintro rfl
  exact h rfl

theorem node?_put_self {names : List String} (h : names ≠ []) (node : FileNode) :
    (t.put names node).node? names = some node := by
  cases names with
  | nil => exact absurd rfl h
  | cons name names => exact OrderedMap.find?_insert_self t.nodes (name :: names) node

theorem node?_put_of_ne {names other : List String} (h : other ≠ names) (node : FileNode) :
    (t.put names node).node? other = t.node? other := by
  cases other with
  | nil => rfl
  | cons name other => exact OrderedMap.find?_insert_of_ne node h

/-- Putting something where there was no directory leaves every directory. -/
theorem directory_put {names there : List String} (h : t.node? names ≠ some .directory)
    (node : FileNode) (hthere : t.node? there = some .directory) :
    (t.put names node).node? there = some .directory := by
  have hne : there ≠ names := by
    rintro rfl
    exact h hthere
  rw [node?_put_of_ne hne, hthere]

theorem follow_put {names : List String} (h : t.node? names ≠ some .directory) (node : FileNode)
    {here path there : List String} (hfollow : t.follow here path = .ok there) :
    (t.put names node).follow here path = .ok there := by
  induction path generalizing here with
  | nil => exact hfollow
  | cons name path ih =>
      rw [follow] at hfollow ⊢
      cases hnode : t.node? here with
      | none => simp [hnode] at hfollow
      | some found =>
          cases found with
          | file text => simp [hnode] at hfollow
          | directory =>
              simp only [hnode] at hfollow
              simp only [directory_put h node hnode]
              exact ih hfollow

/-- Every path that led somewhere leads there still. -/
theorem resolve_put {names : List String} (h : t.node? names ≠ some .directory) (node : FileNode)
    {there : List String} (hresolve : t.resolve p = .ok there) :
    (t.put names node).resolve p = .ok there :=
  follow_put h node hresolve

/-! ## Files -/

/-- A text can be written where there is no directory, inside a directory. -/
theorem writeText_eq_ok {text : String} : t.writeText p text = .ok t' ↔
    ∃ names, t.resolve p = .ok names ∧ t.node? names ≠ some .directory
      ∧ t.node? names.dropLast = some .directory ∧ t' = t.put names (.file (some text)) := by
  unfold writeText
  cases hresolve : t.resolve p with
  | error fault => simp [bind, Except.bind]
  | ok names =>
      simp only [bind, Except.bind, Except.ok.injEq, exists_eq_left']
      generalize t.node? names = found, t.node? names.dropLast = above
      rcases found with _ | _ | _ <;> rcases above with _ | _ | _ <;>
        simp [eq_comm, throw, throwThe, MonadExceptOf.throw, pure, Except.pure]

section Written

variable {text : String} (h : t.writeText p text = .ok t')
include h

/-- A text that was written is there under the same path. -/
theorem written_resolve : ∃ names, t'.resolve p = .ok names
    ∧ t'.node? names = some (.file (some text)) ∧ t'.node? names.dropLast = some .directory := by
  obtain ⟨names, hresolve, hfree, habove, rfl⟩ := writeText_eq_ok.mp h
  exact ⟨names, resolve_put hfree _ hresolve, node?_put_self (ne_nil_of_not_directory hfree) _,
    directory_put hfree _ habove⟩

theorem readText_written :
    t'.readText p = .ok (String.ofList (Text.unifyNewlines text.toList)) := by
  obtain ⟨names, hresolve, hnode, -⟩ := written_resolve h
  simp [readText, hresolve, hnode, pure, Except.pure]

/-- Where a text was written, another can be, and then it is as if only that one had been. -/
theorem writeText_over (other : String) :
    ∃ anew, t'.writeText p other = .ok anew ∧ t.writeText p other = .ok anew := by
  obtain ⟨names, hresolve, hfree, habove, rfl⟩ := writeText_eq_ok.mp h
  have hself := node?_put_self (t := t) (ne_nil_of_not_directory hfree) (.file (some text))
  refine ⟨t.put names (.file (some other)), writeText_eq_ok.mpr
    ⟨names, resolve_put hfree _ hresolve, ?_, directory_put hfree _ habove, ?_⟩,
    writeText_eq_ok.mpr ⟨names, hresolve, hfree, habove, rfl⟩⟩
  · rw [hself]
    simp
  · unfold put
    rw [OrderedMap.insert_insert]

/-- Writing a text leaves every directory. -/
theorem isDirectory_written (hq : t.isDirectory q = true) : t'.isDirectory q = true := by
  obtain ⟨names, -, hfree, -, rfl⟩ := writeText_eq_ok.mp h
  obtain ⟨there, hthere, hnode⟩ := isDirectory_iff.mp hq
  exact isDirectory_iff.mpr ⟨there, resolve_put hfree _ hthere, directory_put hfree _ hnode⟩

theorem workingDirectory_written : t'.workingDirectory = t.workingDirectory := by
  obtain ⟨names, -, -, -, rfl⟩ := writeText_eq_ok.mp h
  rfl

end Written

/-! ## Trees inside others -/

/-- What can be found in the first tree can be found in the second. -/
structure Within (t t' : FileTree) : Prop where
  workingDirectory : t'.workingDirectory = t.workingDirectory
  resolve : ∀ {q names}, t.resolve q = .ok names → t'.resolve q = .ok names
  node : ∀ {names node}, t.node? names = some node → t'.node? names = some node

theorem Within.refl (t : FileTree) : t.Within t :=
  ⟨rfl, id, id⟩

theorem Within.trans {t'' : FileTree} (h : t.Within t') (h' : t'.Within t'') : t.Within t'' :=
  ⟨h'.workingDirectory.trans h.workingDirectory, fun hq => h'.resolve (h.resolve hq),
    fun hnode => h'.node (h.node hnode)⟩

theorem within_put (hfree : t.node? names = none) (node : FileNode) :
    t.Within (t.put names node) where
  workingDirectory := rfl
  resolve := resolve_put (by simp [hfree]) node
  node {other found} hfound := by
    rwa [node?_put_of_ne]
    rintro rfl
    rw [hfree] at hfound
    cases hfound

theorem Within.find? (h : t.Within t') {node : FileNode} (hfound : t.find? q = some node) :
    t'.find? q = some node := by
  unfold FileTree.find? at hfound ⊢
  cases hresolve : t.resolve q with
  | error fault => rw [hresolve] at hfound; cases hfound
  | ok names =>
      rw [hresolve] at hfound
      rw [h.resolve hresolve]
      exact h.node hfound

theorem Within.isDirectory (h : t.Within t') (hq : t.isDirectory q = true) :
    t'.isDirectory q = true :=
  isDirectory_iff_find?.mpr (h.find? (isDirectory_iff_find?.mp hq))

theorem Within.isFile (h : t.Within t') (hq : t.isFile q = true) : t'.isFile q = true := by
  obtain ⟨names, text, hresolve, hnode⟩ := isFile_iff.mp hq
  exact isFile_iff.mpr ⟨names, text, h.resolve hresolve, h.node hnode⟩

/-! ## Making directories -/

theorem makeDirectory_of_directory (h : t.isDirectory p = true) :
    t.makeDirectory p = .error .alreadyExists := by
  obtain ⟨names, hresolve, hnode⟩ := isDirectory_iff.mp h
  simp [makeDirectory, hresolve, hnode, bind, Except.bind, throw, throwThe, MonadExceptOf.throw]

/-- What is a directory already stays as it is. -/
theorem ensureDirectories_of_directory (h : t.isDirectory p = true) :
    t.ensureDirectories p = .ok t := by
  rw [ensureDirectories, makeDirectory_of_directory h]
  simp [h]

/-- Inside a directory, a new one can be made where nothing is. -/
theorem makeDirectory_new {names : List String} (hresolve : t.resolve p = .ok names)
    (hfree : t.node? names = none) (habove : t.node? names.dropLast = some .directory) :
    t.makeDirectory p = .ok (t.put names .directory) := by
  simp [makeDirectory, hresolve, hfree, habove, bind, Except.bind, pure, Except.pure]

theorem makeDirectory_eq_ok (h : t.makeDirectory p = .ok t') : ∃ names, t.resolve p = .ok names ∧
    t.node? names = none ∧ t.node? names.dropLast = some .directory ∧
      t' = t.put names .directory := by
  unfold makeDirectory at h
  cases hresolve : t.resolve p with
  | error fault => rw [hresolve] at h; cases h
  | ok names =>
      rw [hresolve] at h
      refine ⟨names, rfl, ?_⟩
      cases hnode : t.node? names with
      | some node => simp [hnode, bind, Except.bind, throw, throwThe, MonadExceptOf.throw] at h
      | none =>
          rcases habove : t.node? names.dropLast with _ | _ | _ <;>
            simp [hnode, habove, bind, Except.bind, throw, throwThe, MonadExceptOf.throw, pure,
              Except.pure] at h
          exact ⟨rfl, rfl, h.symm⟩

theorem within_of_makeDirectory (h : t.makeDirectory p = .ok t') : t.Within t' := by
  obtain ⟨names, -, hfree, -, rfl⟩ := makeDirectory_eq_ok h
  exact within_put hfree _

theorem isDirectory_of_makeDirectory (h : t.makeDirectory p = .ok t') :
    t'.isDirectory p = true := by
  obtain ⟨names, hresolve, hfree, -, rfl⟩ := makeDirectory_eq_ok h
  have hplace : t.node? names ≠ some .directory := by simp [hfree]
  exact isDirectory_iff.mpr ⟨names, resolve_put hplace _ hresolve,
    node?_put_self (ne_nil_of_not_directory hplace) _⟩

/-- A directory that may have been there is the old one or a new one. -/
theorem ensureDirectory_eq_ok (h : t.ensureDirectory p = .ok t') :
    t.isDirectory p = true ∧ t' = t ∨ t.makeDirectory p = .ok t' := by
  unfold ensureDirectory at h
  split at h
  · rename_i made hmade
    cases h
    exact .inr hmade
  · split at h
    · rename_i hthere
      cases h
      exact .inl ⟨hthere, rfl⟩
    · cases h

theorem within_of_ensureDirectory (h : t.ensureDirectory p = .ok t') : t.Within t' := by
  rcases ensureDirectory_eq_ok h with ⟨-, rfl⟩ | hmade
  · exact .refl _
  · exact within_of_makeDirectory hmade

theorem isDirectory_of_ensureDirectory (h : t.ensureDirectory p = .ok t') :
    t'.isDirectory p = true := by
  rcases ensureDirectory_eq_ok h with ⟨hthere, rfl⟩ | hmade
  · exact hthere
  · exact isDirectory_of_makeDirectory hmade

/-- Elsewhere all is as before. -/
theorem node?_ensureDirectory (h : t.ensureDirectory p = .ok t') (hp : t.resolve p = .ok names)
    {other : List String} (hother : other ≠ names) : t'.node? other = t.node? other := by
  rcases ensureDirectory_eq_ok h with ⟨-, rfl⟩ | hmade
  · rfl
  · obtain ⟨place, hplace, -, -, rfl⟩ := makeDirectory_eq_ok hmade
    rw [hp] at hplace
    exact node?_put_of_ne (Except.ok.inj hplace ▸ hother) _

/-- Where a path could be followed before, no file has come to be. -/
theorem isFile_of_ensureDirectory (h : t.ensureDirectory p = .ok t') (hq : t'.isFile q = true)
    (hresolve : t.resolve q = .ok names) : t.isFile q = true := by
  obtain ⟨there, text, hthere, hnode⟩ := isFile_iff.mp hq
  obtain rfl : names = there :=
    Except.ok.inj (((within_of_ensureDirectory h).resolve hresolve).symm.trans hthere)
  refine isFile_iff.mpr ⟨names, text, hresolve, ?_⟩
  rcases ensureDirectory_eq_ok h with ⟨-, rfl⟩ | hmade
  · exact hnode
  · obtain ⟨place, -, hfree, -, rfl⟩ := makeDirectory_eq_ok hmade
    have hplace : t.node? place ≠ some .directory := by simp [hfree]
    by_cases heq : names = place
    · rw [heq, node?_put_self (ne_nil_of_not_directory hplace)] at hnode
      cases hnode
    · rwa [node?_put_of_ne heq] at hnode

theorem ensureDirectory_of_directory (h : t.isDirectory p = true) :
    t.ensureDirectory p = .ok t := by
  rw [ensureDirectory, makeDirectory_of_directory h]
  simp [h]

theorem within_of_ensureDirectories (h : t.ensureDirectories p = .ok t') : t.Within t' := by
  -- By the recursion to the parent, which is made first where it is missing.
  fun_induction ensureDirectories t p generalizing t' with
  | case1 p hmissing hnames => cases h
  | case2 p hmissing hnames ih =>
      cases habove : t.ensureDirectories p.parent with
      | error fault =>
          rw [habove] at h
          cases h
      | ok above =>
          rw [habove] at h
          exact (ih habove).trans (within_of_ensureDirectory h)
  | case3 p made hmade =>
      cases h
      exact within_of_makeDirectory hmade
  | case4 p fault hfault hother hthere =>
      cases h
      exact .refl t
  | case5 p fault hfault hother hthere => cases h

/-- What is in a directory is still in one when another directory was made. -/
theorem Rooted.ensureDirectory (hrooted : t.Rooted) (h : t.ensureDirectory p = .ok t') :
    t'.Rooted := by
  rcases ensureDirectory_eq_ok h with ⟨-, rfl⟩ | hmade
  · exact hrooted
  · obtain ⟨place, -, hfree, habove, rfl⟩ := makeDirectory_eq_ok hmade
    have hplace : t.node? place ≠ some .directory := by simp [hfree]
    intro names hnames
    by_cases heq : names = place
    · rw [heq]
      exact directory_put hplace _ habove
    · rw [node?_put_of_ne heq] at hnames
      exact directory_put hplace _ (hrooted names hnames)

end StepTrace.FileTree
