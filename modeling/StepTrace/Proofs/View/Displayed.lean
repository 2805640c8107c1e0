import StepTrace.Proofs.Returns.Documents
import StepTrace.Proofs.View.Depicted
import StepTrace.View.Dot
import Mathlib.Data.List.Forall2

/-!
# DOT text reads back

A drawing program sees of a graph the identifiers, shapes and labels of its nodes and the edges with
their relations (`Dot.Drawing`).  It takes a line of the text at a time, and in a line a quoted text
ends at the first quote that no backslash protects (`Dot.quoted?`), whatever stands in it or comes
behind it.  What an escape stands for is decided afterwards (`Dot.unescape?`).

* `readQuoted?_quote` says that a text in quotes reads back, in front of any rest.
* `readNode?_line` and `readEdge?_line` say it of the lines of nodes and edges.
* `displays_text` says it of a whole text, and `Displays.unique` that no text displays two drawings.

Nothing is assumed about the identifiers and texts of a store except that titles, names and patterns
are texts (`Store.Worded`).  The main statement is `Dot.write_displays`.
-/

namespace StepTrace

namespace Dot

/-! ## Quoted texts -/

/-- What stands before the first quote that no backslash protects, and what comes behind it. -/
def quoted? : List Char → Option (List Char × List Char)
  | [] => none
  | '"' :: s => some ([], s)
  | '\\' :: c :: s => (quoted? s).map fun (body, rest) => ('\\' :: c :: body, rest)
  | c :: s => (quoted? s).map fun (body, rest) => (c :: body, rest)

/-- The text that was escaped, if every backslash in it begins an escape. -/
def unescape? : List Char → Option (List Char)
  | [] => some []
  | '\\' :: '\\' :: s => (unescape? s).map ('\\' :: ·)
  | '\\' :: '"' :: s => (unescape? s).map ('"' :: ·)
  | '\\' :: 'n' :: s => (unescape? s).map ('\n' :: ·)
  | '\\' :: _ => none
  | c :: s => (unescape? s).map (c :: ·)

/-- The text in the quotes that a line goes on with, and what comes behind them. -/
def readQuoted? : List Char → Option (String × List Char)
  | '"' :: s => do
    let (body, rest) ← quoted? s
    return (String.ofList (← unescape? body), rest)
  | _ => none

theorem quoted?_cons {c : Char} (hquote : c ≠ '"') (hslash : c ≠ '\\') (s : List Char) :
    quoted? (c :: s) = (quoted? s).map fun (body, rest) => (c :: body, rest) := by
  rw [quoted?]
  · exact hquote
  · rintro _ _ rfl
    exact absurd rfl hslash

theorem unescape?_cons {c : Char} (hslash : c ≠ '\\') (s : List Char) :
    unescape? (c :: s) = (unescape? s).map (c :: ·) := by
  rw [unescape?] <;> simp [hslash]

/-- An escaped character is passed over, so a quote in it does not end the text. -/
theorem quoted?_escapeChar (c : Char) (s : List Char) :
    quoted? (escapeChar c ++ s) =
      (quoted? s).map fun (body, rest) => (escapeChar c ++ body, rest) := by
  unfold escapeChar
  split_ifs with hslash hquote hfeed
  · rfl
  · rfl
  · rfl
  · exact quoted?_cons hquote hslash s

theorem unescape?_escapeChar (c : Char) (s : List Char) :
    unescape? (escapeChar c ++ s) = (unescape? s).map (c :: ·) := by
  unfold escapeChar
  split_ifs with hslash hquote hfeed
  · subst hslash
    simp [unescape?]
  · subst hquote
    simp [unescape?]
  · subst hfeed
    simp [unescape?]
  · exact unescape?_cons hslash s

/-- An escaped text ends at the quote behind it. -/
theorem quoted?_escaped (s rest : List Char) :
    quoted? (s.flatMap escapeChar ++ '"' :: rest) = some (s.flatMap escapeChar, rest) := by
  induction s with
  | nil => rfl
  | cons c s ih => rw [List.flatMap_cons, List.append_assoc, quoted?_escapeChar, ih]; rfl

theorem unescape?_escaped (s : List Char) : unescape? (s.flatMap escapeChar) = some s := by
  induction s with
  | nil => rfl
  | cons c s ih => rw [List.flatMap_cons, unescape?_escapeChar, ih]; rfl

theorem toList_quote (s : String) :
    (quote s).toList = '"' :: (s.toList.flatMap escapeChar ++ ['"']) := by
  simp [quote]

/-- **A text in quotes reads back**, whatever comes behind it. -/
theorem readQuoted?_quote (s : String) (rest : List Char) :
    readQuoted? ((quote s).toList ++ rest) = some (s, rest) := by
  rw [toList_quote, List.cons_append, List.append_assoc, List.singleton_append, readQuoted?,
    quoted?_escaped]
  simp only [Option.bind_eq_bind, Option.bind_some, unescape?_escaped, String.ofList_toList]
  rfl

/-- Nothing in quotes ends the line. -/
theorem not_mem_quote (s : String) : '\n' ∉ (quote s).toList := by
  have hchar (c : Char) : '\n' ∉ escapeChar c := by
    unfold escapeChar
    split_ifs with hslash hquote hfeed
    · decide
    · decide
    · decide
    · simpa using Ne.symm hfeed
  simp [toList_quote, hchar]

/-! ## Lines -/

/-- What a node is displayed as. -/
structure Mark where
  id : String
  shape : String
  label : String
deriving DecidableEq, Repr

/-- What is displayed of a graph. -/
structure Drawing where
  nodes : List Mark
  edges : List Edge
deriving DecidableEq, Repr

/-- The line of a node as it is displayed. -/
def Mark.line (m : Mark) : String :=
  "  " ++ quote m.id ++ " [shape=" ++ m.shape ++ ", label=" ++ quote m.label ++ "];"

/-- The node that a line displays. -/
def readNode? (line : List Char) : Option Mark := do
  let rest ← Text.after? "  ".toList line
  let (id, rest) ← readQuoted? rest
  let rest ← Text.after? " [shape=".toList rest
  let shape := rest.takeWhile (· ≠ ',')
  let rest ← Text.after? ", label=".toList (rest.dropWhile (· ≠ ','))
  let (label, rest) ← readQuoted? rest
  if rest = "];".toList then return ⟨id, String.ofList shape, label⟩ else none

/-- The edge that a line displays; how it is drawn follows from its relation. -/
def readEdge? (line : List Char) : Option Edge := do
  let rest ← Text.after? "  ".toList line
  let (source, rest) ← readQuoted? rest
  let rest ← Text.after? " -> ".toList rest
  let (target, rest) ← readQuoted? rest
  let rest ← Text.after? " [label=".toList rest
  let (word, rest) ← readQuoted? rest
  let relation ← Relation.all.find? (·.word = word)
  if "];".toList.isSuffixOf rest then return ⟨source, target, relation⟩ else none

theorem after?_append (head rest : List Char) : Text.after? head (head ++ rest) = some rest :=
  Text.after?_eq_some_iff.mpr rfl

/-- A line displays a node of which the shape is a plain word. -/
theorem readNode?_line {m : Mark} (hshape : ',' ∉ m.shape.toList) :
    readNode? m.line.toList = some m := by
  have hword : ∀ c ∈ m.shape.toList, decide (c ≠ ',') = true := by
    rintro c hc
    rw [decide_eq_true_eq]
    rintro rfl
    exact hshape hc
  have hline : m.line.toList = "  ".toList ++ ((quote m.id).toList ++ (" [shape=".toList ++
      (m.shape.toList ++ (", label=".toList ++ ((quote m.label).toList ++ "];".toList))))) := by
    simp only [Mark.line, String.toList_append, List.append_assoc]
  have htake (rest : List Char) :
      (m.shape.toList ++ (", label=".toList ++ rest)).takeWhile (· ≠ ',') = m.shape.toList := by
    rw [List.takeWhile_append_of_pos hword]
    simp
  have hdrop (rest : List Char) : (m.shape.toList ++ (", label=".toList ++ rest)).dropWhile
      (· ≠ ',') = ", label=".toList ++ rest := by
    rw [List.dropWhile_append_of_pos hword]
    simp
  rw [hline, readNode?]
  simp only [after?_append, Option.bind_eq_bind, Option.bind_some, readQuoted?_quote, htake, hdrop,
    if_true, String.ofList_toList]
  rfl

/-- The part of an edge's line behind its ends. -/
def attributes (r : Relation) : String :=
  " [label=" ++ quote r.word ++ (match styleOf r with
    | some style => ", style=" ++ style
    | none => "") ++ "];"

theorem edgeLine_eq (e : Edge) :
    edgeLine e = "  " ++ quote e.source ++ " -> " ++ quote e.target ++ attributes e.relation := by
  obtain ⟨source, target, relation⟩ := e
  cases relation <;> simp [edgeLine, attributes, String.append_assoc] <;> rfl

theorem readEdge?_line (e : Edge) : readEdge? (edgeLine e).toList = some e := by
  obtain ⟨source, target, relation⟩ := e
  rw [edgeLine_eq, readEdge?]
  simp only [attributes, String.toList_append, List.append_assoc, after?_append,
    Option.bind_eq_bind, Option.bind_some, readQuoted?_quote]
  cases relation <;> rfl

theorem not_mem_line {m : Mark} (hshape : '\n' ∉ m.shape.toList) : '\n' ∉ m.line.toList := by
  simp [Mark.line, String.toList_append, not_mem_quote, hshape]

theorem not_mem_edgeLine (e : Edge) : '\n' ∉ (edgeLine e).toList := by
  have hattributes : ∀ r, '\n' ∉ (attributes r).toList := by
    intro r
    cases r <;> decide
  rw [edgeLine_eq]
  simp [String.toList_append, not_mem_quote, hattributes]

/-! ## The whole text -/

def header : List String :=
  ["digraph feature_links \x7b", "  rankdir=LR;", ""]

/-- The text displays the drawing: a header, a line for each node, an empty line, a line for each
edge, and a closing brace. -/
def Displays (text : List Char) (d : Drawing) : Prop :=
  ∃ nodeLines edgeLines,
    text.splitOn '\n' =
      header.map String.toList ++ (nodeLines ++ [] :: (edgeLines ++ [['\x7d']])) ∧
    List.Forall₂ (fun line m => readNode? line = some m) nodeLines d.nodes ∧
    List.Forall₂ (fun line e => readEdge? line = some e) edgeLines d.edges

/-- An empty line does not display anything. -/
theorem nil_not_mem {α : Type} {read : List Char → Option α} (hread : read [] = none)
    {lines : List (List Char)} {xs : List α}
    (h : List.Forall₂ (fun line x => read line = some x) lines xs) : [] ∉ lines := by
  intro hmem
  induction h with
  | nil => cases hmem
  | cons hline _ ih =>
    rcases List.mem_cons.mp hmem with rfl | hmem
    · rw [hread] at hline
      cases hline
    · exact ih hmem

/-- No text displays two drawings: the nodes end at the first line that displays none. -/
theorem Displays.unique {text : List Char} {d d' : Drawing} (h : Displays text d)
    (h' : Displays text d') : d = d' := by
  obtain ⟨nodes, edges, hlines, hnodes, hedges⟩ := h
  obtain ⟨nodes', edges', hlines', hnodes', hedges'⟩ := h'
  have hnodesEmpty : [] ∉ nodes := nil_not_mem rfl hnodes
  have hedgesEmpty : [] ∉ edges := nil_not_mem rfl hedges
  have hempty : [] ∉ edges ++ [['\x7d']] := by simp [hedgesEmpty]
  rw [hlines, List.append_cancel_left_eq,
    List.append_cons_inj_of_notMem hnodesEmpty hempty] at hlines'
  obtain ⟨rfl, -, hlines'⟩ := hlines'
  obtain rfl := List.append_cancel_right hlines'
  have hmarks : d.nodes = d'.nodes :=
    List.right_unique_forall₂' (fun _ _ _ h h' => Option.some.inj (h.symm.trans h')) hnodes hnodes'
  have hsame : d.edges = d'.edges :=
    List.right_unique_forall₂' (fun _ _ _ h h' => Option.some.inj (h.symm.trans h')) hedges hedges'
  obtain ⟨_, _⟩ := d
  obtain ⟨_, _⟩ := d'
  exact congrArg₂ Drawing.mk hmarks hsame

/-- The lines that display a drawing. -/
def Drawing.lines (d : Drawing) : List String :=
  header ++ d.nodes.map Mark.line ++ [""] ++ d.edges.map edgeLine ++ ["\x7d"]

/-- A shape that stands in a line as it is. -/
def PlainShape (shape : String) : Prop :=
  ',' ∉ shape.toList ∧ '\n' ∉ shape.toList

/-- The lines of a drawing, joined, display it. -/
theorem displays_lines {d : Drawing} (h : ∀ m ∈ d.nodes, PlainShape m.shape) :
    Displays (String.intercalate "\n" d.lines).toList d := by
  refine ⟨d.nodes.map (·.line.toList), d.edges.map fun e => (edgeLine e).toList, ?_, ?_, ?_⟩
  · rw [String.toList_intercalate]
    refine (List.splitOn_intercalate '\n' ?_ ?_).trans ?_
    · simp only [Drawing.lines, header, List.map_append, List.map_map, List.mem_append]
      rintro line ((((hline | hline) | hline) | hline) | hline)
      · revert line
        decide
      · obtain ⟨m, hm, rfl⟩ := List.mem_map.mp hline
        exact not_mem_line (h m hm).2
      · revert line
        decide
      · obtain ⟨e, -, rfl⟩ := List.mem_map.mp hline
        exact not_mem_edgeLine e
      · revert line
        decide
    · simp [Drawing.lines]
    · simp [Drawing.lines, Function.comp_def]
  · rw [List.forall₂_map_left_iff, List.forall₂_same]
    exact fun m hm => readNode?_line (h m hm).1
  · rw [List.forall₂_map_left_iff, List.forall₂_same]
    exact fun e _ => readEdge?_line e

end Dot

/-! ## Graphs -/

/-- A text, or something that does not count as a label. -/
def Value.Showable (v : Value) : Prop :=
  v.isPresent = true → v.Textual

instance (v : Value) : Decidable v.Showable :=
  decidable_of_iff (v.isPresent = true → v.toText.isOk = true) (by
    cases v <;> simp [Value.Showable, Value.Textual, Value.toText, Except.isOk, Except.toBool])

namespace LinkGraph

/-- The label that a node is displayed with: its identifier if it has no other. -/
def shownLabel (id : String) : Option NodeFace → String
  | some ⟨_, .text s⟩ => if s = "" then id else s
  | _ => id

/-- What is displayed of a graph. -/
def drawing (g : LinkGraph) : Dot.Drawing where
  nodes := g.nodes.entries.map fun (id, face) => ⟨id, Dot.shapeOf face, shownLabel id face⟩
  edges := g.edges

/-- The nodes are distinct, and all labels can be shown. -/
structure Presentable (g : LinkGraph) : Prop where
  nodup : g.nodes.keys.Nodup
  labels : ∀ face, some face ∈ g.nodes.values → face.label.Showable

end LinkGraph

namespace Dot

open LinkGraph

theorem labelOf_eq {face : Option NodeFace} (h : ∀ f, face = some f → f.label.Showable)
    (id : String) : labelOf id face = .ok (shownLabel id face) := by
  obtain _ | ⟨kind, label⟩ := face
  · rfl
  · by_cases hpresent : label.isPresent
    · obtain ⟨s, rfl⟩ := h _ rfl hpresent
      have hs : s ≠ "" := by simpa [Value.isPresent] using hpresent
      simp [labelOf, shownLabel, Value.orElse, Value.isPresent, hs]
    · have hid : shownLabel id (some ⟨kind, label⟩) = id := by
        cases label with
        | text s =>
          have hs : s = "" := by simpa [Value.isPresent] using hpresent
          simp [shownLabel, hs]
        | _ => rfl
      simp [labelOf, Value.orElse, hpresent, hid]

theorem plainShape_shapeOf (face : Option NodeFace) : PlainShape (shapeOf face) := by
  have hshapes : ∀ shape ∈ "ellipse" :: shapes.map (·.2), PlainShape shape := by
    unfold PlainShape
    decide
  have hlookup (kind : String) : (shapes.lookup kind).getD "ellipse" ∈
      "ellipse" :: shapes.map (·.2) := by
    cases hfound : shapes.lookup kind with
    | none => exact List.mem_cons_self ..
    | some shape =>
      obtain ⟨_, _, hmem, -⟩ := List.lookup_eq_some_iff.mp hfound
      exact List.mem_cons_of_mem _ (by simp [hmem])
  cases face with
  | none => exact hshapes _ (List.mem_cons_self ..)
  | some face => exact hshapes _ (hlookup face.kind)

/-- The lines of a graph are those of what is displayed of it. -/
theorem lines_eq {g : LinkGraph} (h : g.Presentable) : Dot.lines g = .ok g.drawing.lines := by
  have hnode : ∀ node ∈ g.nodes.entries, nodeLine node.1 node.2 =
      .ok (Mark.line ⟨node.1, shapeOf node.2, shownLabel node.1 node.2⟩) := by
    rintro ⟨id, face⟩ hmem
    have hlabel : labelOf id face = .ok (shownLabel id face) :=
      labelOf_eq (fun f hf => h.labels f (hf ▸ List.mem_map_of_mem hmem)) id
    simp only [nodeLine, hlabel]
    rfl
  have hnodes := mapM_eq_map hnode
  simp only [Dot.lines, hnodes]
  simp only [Drawing.lines, drawing, List.map_map]
  rfl

end Dot

/-! ## Graphs of stores -/

theorem Arena.get_of_forall {α : Type} [Inhabited α] {a : Arena α} {P : α → Prop}
    (h : ∀ x ∈ a.records, P x) (hdefault : P default) (r : Ref α) : P (a.get r) := by
  unfold Arena.get
  cases hr : a.records[r.index]? with
  | none => exact hdefault
  | some x => exact h x (Array.mem_of_getElem? hr)

/-- Titles, names and patterns are texts, or do not count as labels. -/
structure Store.Worded (s : Store) : Prop where
  features : ∀ x ∈ s.features.records, x.title.Showable
  scenarios : ∀ x ∈ s.scenarios.records, x.title.Showable
  outlines : ∀ x ∈ s.outlines.records, x.title.Showable
  examples : ∀ x ∈ s.examples.records, x.name.Showable
  definitions : ∀ x ∈ s.definitions.records, x.pattern.Showable
  transforms : ∀ x ∈ s.transforms.records, x.pattern.Showable

theorem Value.showable_text (s : String) : (Value.text s).Showable :=
  fun _ => Value.textual s

/-- Whatever record is referred to, its label can be shown. -/
theorem Store.Worded.faceOf {s : Store} (hs : s.Worded) (e : Entry) :
    (s.faceOf e).label.Showable := by
  have hnull : Value.null.Showable := nofun
  cases e with
  | nameSpace r => exact Value.showable_text _
  | feature r => exact Arena.get_of_forall hs.features hnull r
  | scenario r => exact Arena.get_of_forall hs.scenarios hnull r
  | outline r => exact Arena.get_of_forall hs.outlines hnull r
  | examples r => exact Arena.get_of_forall hs.examples hnull r
  | step r => exact Value.showable_text _
  | tag r => exact Value.showable_text _
  | definition r => exact Arena.get_of_forall hs.definitions hnull r
  | transform r => exact Arena.get_of_forall hs.transforms hnull r

namespace LinkGraph

variable {s : Store} {g : LinkGraph}

theorem presentable_empty : Presentable {} :=
  ⟨List.nodup_nil, nofun⟩

theorem Presentable.addNode (hg : g.Presentable) (id kind : String) {label : Value}
    (hlabel : label.Showable) : (g.addNode id kind label).Presentable where
  nodup := OrderedMap.nodup_keys_insert hg.nodup id _
  labels face hface := by
    rcases OrderedMap.mem_values_insert hface with heq | hold
    · cases heq
      exact hlabel
    · exact hg.labels face hold

theorem Presentable.touch (hg : g.Presentable) (id : String) : (g.touch id).Presentable where
  nodup := (keys_touch g id).2 hg.nodup
  labels face hface := by
    unfold LinkGraph.touch at hface
    split at hface
    · exact hg.labels face hface
    · rcases OrderedMap.mem_values_insert hface with heq | hold
      · cases heq
      · exact hg.labels face hold

theorem Presentable.addEdge (hg : g.Presentable) (source target : String) (relation : Relation) :
    (g.addEdge source target relation).Presentable :=
  have hends := (hg.touch source).touch target
  ⟨hends.nodup, hends.labels⟩

/-- Naming a record, and drawing an edge to it. -/
theorem Presentable.record (hs : s.Worded) (hg : g.Presentable) (parent : String) (e : Entry) :
    ((g.addNode (s.idOf e) (s.faceOf e).kind (s.faceOf e).label).addEdge parent (s.idOf e)
      .contains).Presentable :=
  (hg.addNode _ _ (hs.faceOf e)).addEdge ..

/-- What keeps a graph presentable for each element keeps it so for a list. -/
theorem Presentable.foldl {α : Type} {f : LinkGraph → α → LinkGraph} (hg : g.Presentable)
    (xs : List α) (hf : ∀ g x, Presentable g → (f g x).Presentable) :
    (xs.foldl f g).Presentable :=
  List.foldlRecOn xs f hg fun g hg x _ => hf g x hg

theorem Presentable.addTags (hg : g.Presentable) (owner : String) (tags : List (Ref Tag)) :
    (g.addTags s owner tags).Presentable :=
  hg.foldl tags fun _ _ hg => hg.addEdge ..

theorem Presentable.addStep (hs : s.Worded) (hg : g.Presentable) (parent : String) (r : Ref Step) :
    (g.addStep s parent r).Presentable := by
  have hnode := hg.record hs parent (.step r)
  refine .foldl ?_ _ fun _ _ hg => hg.addEdge ..
  cases (s.get r).definition with
  | none => exact hnode
  | some d => exact hnode.addEdge ..

theorem Presentable.addScenario (hs : s.Worded) (hg : g.Presentable) (parent : String)
    (r : Ref Scenario) : (g.addScenario s parent r).Presentable := by
  have hnode := hg.record hs parent (.scenario r)
  exact (hnode.addTags _ _).foldl _ fun _ y hg => hg.addStep hs _ y

theorem Presentable.addExamples (hs : s.Worded) (hg : g.Presentable) (parent : String)
    (r : Ref Examples) : (g.addExamples s parent r).Presentable := by
  have hnode := hg.record hs parent (.examples r)
  exact hnode.addTags _ _

theorem Presentable.addOutline (hs : s.Worded) (hg : g.Presentable) (parent : String)
    (r : Ref Outline) : (g.addOutline s parent r).Presentable := by
  have hnode := hg.record hs parent (.outline r)
  have htags : (LinkGraph.addTags s (s.get r).id (s.get r).tags _).Presentable := hnode.addTags ..
  have hsteps := htags.foldl (s.get r).steps fun _ y hg => hg.addStep hs (s.get r).id y
  have hexamples := hsteps.foldl (s.get r).examples
    fun _ x hg => hg.addExamples hs (s.get r).id x
  exact hexamples.foldl _ fun _ x hg => hg.addScenario hs _ x

theorem Presentable.addFeature (hs : s.Worded) (hg : g.Presentable) (r : Ref Feature) :
    (g.addFeature s r).Presentable := by
  have hnode := hg.addNode (s.get r).id Kind.feature.word (hs.faceOf (.feature r))
  have htags : (LinkGraph.addTags s (s.get r).id (s.get r).tags _).Presentable := hnode.addTags ..
  have hbackground := htags.foldl (s.get r).background.toList
    fun _ x hg => hg.addScenario hs (s.get r).id x
  refine hbackground.foldl _ fun g c hg => ?_
  cases c with
  | scenario x => exact hg.addScenario hs _ x
  | outline o => exact hg.addOutline hs _ o

/-- The graph of a store with text for labels can be shown. -/
theorem presentable_ofStore (hs : s.Worded) : (ofStore s).Presentable := by
  have hdefinitions := presentable_empty.foldl s.allDefinitions fun g r hg =>
    hg.addNode (s.get r).id Kind.definition.word (hs.faceOf (.definition r))
  have htransforms := hdefinitions.foldl s.allTransforms fun g r hg =>
    hg.addNode (s.get r).id Kind.transform.word (hs.faceOf (.transform r))
  have htags := htransforms.foldl s.allTags fun g r hg =>
    hg.addNode (s.get r).id Kind.tag.word (hs.faceOf (.tag r))
  exact htags.foldl s.allFeatures fun g r hg => hg.addFeature hs r

end LinkGraph

namespace Dot

open LinkGraph

variable {s : Store}

theorem write_eq (hs : s.Worded) :
    write s = .ok (String.intercalate "\n" (ofStore s).drawing.lines) := by
  rw [write, lines_eq (presentable_ofStore hs)]
  rfl

theorem displays_drawing (g : LinkGraph) :
    Displays (String.intercalate "\n" g.drawing.lines).toList g.drawing := by
  refine displays_lines fun m hm => ?_
  obtain ⟨node, -, rfl⟩ := List.mem_map.mp hm
  exact plainShape_shapeOf node.2

/-- **The text of a graph displays it**: each node and each edge has a line of its own, and from the
line its identifiers, its shape, its label or its relation can be read.  So two registries have the
same text only if the same is displayed of them, and different nodes never look alike. -/
theorem write_displays (hs : s.Worded) :
    (∃ text, write s = .ok text ∧ Displays text.toList (ofStore s).drawing) ∧
      (∀ s' : Store, s'.Worded →
        (write s' = write s ↔ (ofStore s').drawing = (ofStore s).drawing)) ∧
      ((ofStore s).drawing.nodes.map Mark.id).Nodup ∧ Function.Injective quote := by
  refine ⟨⟨_, write_eq hs, displays_drawing _⟩, fun s' hs' => ?_, ?_, fun t t' h => ?_⟩
  · rw [write_eq hs, write_eq hs']
    constructor
    · intro htext
      have hdisplays := displays_drawing (ofStore s')
      rw [Except.ok.inj htext] at hdisplays
      exact hdisplays.unique (displays_drawing _)
    · intro hdrawing
      rw [hdrawing]
  · have hids : (ofStore s).drawing.nodes.map Mark.id = (ofStore s).nodes.keys := List.map_map
    rw [hids]
    exact (presentable_ofStore hs).nodup
  · have hread := readQuoted?_quote t []
    rw [h, readQuoted?_quote] at hread
    exact (congrArg Prod.fst (Option.some.inj hread)).symm

/-- A store of which all labels are made of what a text in quotes must not hold as it is. -/
def quotesShelf : Store :=
  let s := (({} : Store).register {
    id := "d\"", keyword := "Given", pattern := .text "a \\\"b\\\\\" [shape=box]"
    : Definition }).1
  let s := (s.register { id := "t\\", keyword := "Transform", pattern := .text "" : Transform }).1
  let s := (s.register { id := "tag:@x\ny", name := "x\ny", value := "@x\ny" : Tag }).1
  (s.register {
    id := "f\\\\", name := "f", keyword := .text "Feature", title := .text "\"; -> \"",
    location := ⟨"f", 1⟩, description := .text "", tags := [⟨0⟩], namespaceId := "requirements"
    : Feature }).1

def quotesDrawing : Drawing where
  nodes := [⟨"d\"", "component", "a \\\"b\\\\\" [shape=box]"⟩, ⟨"t\\", "cds", "t\\"⟩,
    ⟨"tag:@x\ny", "note", "x\ny"⟩, ⟨"f\\\\", "folder", "\"; -> \""⟩]
  edges := [⟨"f\\\\", "tag:@x\ny", .tagged⟩]

theorem write_displays_quotesShelf : quotesShelf.Worded ∧
    ∃ text, write quotesShelf = .ok text ∧ Displays text.toList quotesDrawing := by
  have hworded : quotesShelf.Worded := by constructor <;> decide
  have hdrawing : (ofStore quotesShelf).drawing = quotesDrawing := by decide +kernel
  have hdisplays := (write_displays hworded).1
  rw [hdrawing] at hdisplays
  exact ⟨hworded, hdisplays⟩

end Dot

end StepTrace
