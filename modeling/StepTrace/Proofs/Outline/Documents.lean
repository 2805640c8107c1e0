import StepTrace.Proofs.Outline.InOrder

/-!
# The outlines of a document

Every outline of a feature that has been built comes from a scenario node of the document that is
kept, and is unfolded: its templates are the steps of the node, its tables those tables of the node
that are kept, and its scenarios the rows of these tables, numbered through all of them
(`feature_unfolds`).

The containers of a feature are those of the kept scenario nodes (`document_inOrder`), and a container
that is an outline is unfolded.
-/

namespace StepTrace.Build

open Store

/-- **Every outline of a document that is built is unfolded, and comes from a scenario node that is
kept.** -/
theorem document_unfolds (s : Store) (site : Site) (content : Value) :
    Ensures (document site content) s (fun _ => True) fun result s' => ∀ r, result = some r →
      ∀ o, .outline o ∈ (s'.get r).scenarios → ∃ node ∈ content.keptScenarios site.excluded,
        s'.Unfolds site.file site.excluded node o := by
  refine (document_inOrder s site content).weaken (fun _ => id) ?_
  rintro _ s' - hbuilt r hr o ho
  obtain ⟨-, -, hcontainers⟩ := hbuilt r hr
  obtain ⟨node, hnode, -, houtline⟩ := exists_left_of_forall₂ hcontainers ho
  exact ⟨node.1, List.fst_mem_of_mem_zipIdx hnode, houtline.unfolds⟩

/-- **The explosion of an outline is the enumeration of its kept rows.**  Each outline of a feature
that has been built comes from a scenario node that is kept; its templates are the steps of the node
as they stand in the document, its tables those tables of the node that are kept, and its scenarios
the data rows of these tables in order, numbered through all of them, with the placeholders of each
template filled in; so there are as many as its tables have data rows. -/
theorem feature_unfolds {s s' : Store} {r : Ref Feature} {file : Path} {content : Value}
    {excluded : List String} {readMe : ReadMe}
    (hrun : (feature file content excluded readMe).run s = (.ok (some r), s')) {o : Ref Outline}
    (ho : .outline o ∈ (s'.get r).scenarios) :
    (∃ node ∈ content.keptScenarios (excluded.map stripSigil),
      s'.Unfolded file.toString (node.itemsOf "steps") (node.keptTables (excluded.map stripSigil))
        (s'.rowsOf (s'.get o)) o) ∧
      (s'.get o).scenarios.length = s'.expectedScenarios (s'.get o) := by
  have hbuilt : Ensures (feature file content excluded readMe) s (fun _ => True) fun result s' =>
      ∀ r, result = some r → ∀ o, .outline o ∈ (s'.get r).scenarios →
        ∃ node ∈ content.keptScenarios (excluded.map stripSigil),
          s'.Unfolds file.toString (excluded.map stripSigil) node o := by
    unfold feature
    refine .bind (site_names s file excluded readMe) ?_
    rintro x s₁ - ⟨hfile, hexcluded⟩
    rw [← hfile, ← hexcluded]
    exact document_unfolds s₁ x content
  have hresult := hbuilt.2
  rw [hrun] at hresult
  obtain ⟨node, hmem, hunfolds⟩ := hresult (some r) rfl r rfl o ho
  exact ⟨⟨node, hmem, hunfolds⟩, Unfolded.length_scenarios hunfolds⟩

private def cellsOf (cells : List String) : Value :=
  .ofFields [("cells", .list (cells.map fun cell => .ofFields [("value", .text cell)]))]

/-- A table with the given header, if there is one, and rows. -/
private def fareTable (header : Option (List String)) (rows : List (List String))
    (tags : List String) : Value :=
  .ofFields ([("tags", .list (tags.map fun tag => .ofFields [("name", .text tag)])),
    ("tableBody", .list (rows.map cellsOf))] ++
    header.toList.map fun header => ("tableHeader", cellsOf header))

/-- An outline with a table whose rows are of several lengths, one with a header only, an excluded
one, and one without a header. -/
private def fares : Value :=
  .ofFields [("feature", .ofFields [("children", .list [.ofFields [("scenario", .ofFields [
    ("name", .text "Fares"),
    ("steps", .list [.ofFields [("keyword", .text "Given "), ("text", .text "<from> to <to>"),
      ("docString", .ofFields [("content", .text "<to>!")]),
      ("dataTable", .ofFields [("rows", .list [cellsOf ["<to>", "due"]])])]]),
    ("examples", .list [fareTable (some ["from", "to"]) [["Ayr", "Bly"], ["Coe"]] [],
      fareTable (some ["from"]) [] [], fareTable (some ["to"]) [["Dee"]] ["@old"],
      fareTable none [["Ely"]] []])])]])])]

/-- Three rows are kept; a missing cell is empty, and without a header nothing is filled in. -/
theorem feature_unfolds_fares :
    let built := (feature (.ofString "fares.feature") fares ["@old"] none).run {}
    let o : Outline := built.2.get ⟨0⟩
    (∃ node ∈ fares.keptScenarios ["old"], built.2.Unfolded "fares.feature" (node.itemsOf "steps")
        (node.keptTables ["old"]) (built.2.rowsOf o) ⟨0⟩) ∧
      o.scenarios.length = built.2.expectedScenarios o ∧
      o.scenarios.map (fun x => (built.2.get x).title.display) =
        ["Fares (1)", "Fares (2)", "Fares (3)"] ∧
      (o.scenarios.flatMap fun x => (built.2.get x).steps.map fun step =>
        (built.2.get step).text.display) = ["Ayr to Bly", "Coe to ", "<from> to <to>"] := by
  intro built o
  have hresult : built.1.toOption = some (some ⟨0⟩) := by decide +kernel
  have hok := eq_ok_of_toOption hresult
  have hmem : Container.outline ⟨0⟩ ∈ (built.2.get (⟨0⟩ : Ref Feature)).scenarios := by
    decide +kernel
  have hunfolds := feature_unfolds hok hmem
  rw [show (Path.ofString "fares.feature").toString = "fares.feature" by decide +kernel,
    show ["@old"].map stripSigil = ["old"] by decide +kernel] at hunfolds
  exact ⟨hunfolds.1, hunfolds.2, by decide +kernel, by decide +kernel⟩

end StepTrace.Build
