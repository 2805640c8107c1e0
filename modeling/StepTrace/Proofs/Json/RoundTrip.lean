import StepTrace.Proofs.Json.Strings
import Mathlib.Data.List.Forall2
import Mathlib.Data.List.TakeWhile

/-!
# A written value reads back

A value without numbers, dates and knots whose mappings have distinct texts for keys is `Plain`.
Such a value is read from its text as it was written, in either layout and at any depth.

What has to be shown of a written value is that it reads back whatever follows it, and that it
begins neither with a blank nor with a closing bracket (`Reads`).  Lists and objects are put together from
items and fields for which this is known, so the layout only matters for the blanks between them
(`readItems?_intercalate`, `readFields?_intercalate`).  The main statements are `reads_writeAt` and
`read?_write`.
-/

namespace StepTrace.Json

open Numeral Text

/-- Null, truth values and texts, and lists and mappings of such.  The keys of a mapping are texts,
and none occurs twice. -/
inductive Plain : Value → Prop where
  | null : Plain .null
  | bool (b : Bool) : Plain (.bool b)
  | text (s : String) : Plain (.text s)
  | list {items : List Value} (hitems : ∀ v ∈ items, Plain v) : Plain (.list items)
  | map {fields : List (String × Value)} (hnodup : (fields.map (·.1)).Nodup)
      (hfields : ∀ field ∈ fields, Plain field.2) : Plain (.ofFields fields)

/-! ## Blanks between the parts -/

/-- Nothing but blanks. -/
def Blanks (s : List Char) : Prop :=
  ∀ c ∈ s, isBlank c = true

theorem dropWhile_blanks {gap : List Char} (h : Blanks gap) (s : List Char) :
    (gap ++ s).dropWhile isBlank = s.dropWhile isBlank := by
  have hnone : gap.dropWhile isBlank = [] := List.dropWhile_eq_nil_iff.2 h
  simp [List.dropWhile_append, hnone]

theorem dropWhile_visible {c : Char} (h : isBlank c = false) (s : List Char) :
    (c :: s).dropWhile isBlank = c :: s := by
  simp [h]

theorem readValue?_blanks {gap : List Char} (h : Blanks gap) (fuel : Nat) (s : List Char) :
    readValue? fuel (gap ++ s) = readValue? fuel s := by
  cases fuel with
  | zero => simp [readValue?]
  | succ fuel => rw [readValue?, readValue?, dropWhile_blanks h]

theorem readItems?_blanks {gap : List Char} (h : Blanks gap) (fuel : Nat) (items : List Value)
    (s : List Char) : readItems? fuel items (gap ++ s) = readItems? fuel items s := by
  cases fuel with
  | zero => simp [readItems?]
  | succ fuel => rw [readItems?, readItems?, readValue?_blanks h]

theorem readFields?_blanks {gap : List Char} (h : Blanks gap) (fuel : Nat)
    (fields : List (Value × Value)) (s : List Char) :
    readFields? fuel fields (gap ++ s) = readFields? fuel fields s := by
  cases fuel with
  | zero => simp [readFields?]
  | succ fuel => rw [readFields?, readFields?, dropWhile_blanks h]

/-! ## Texts that read as a value -/

/-- The text begins visibly and, whatever follows it, reads as the value. -/
structure Reads (w : List Char) (v : Value) : Prop where
  begins : ∃ c t, w = c :: t ∧ isBlank c = false ∧ c ≠ ']'
  reads : ∀ fuel rest, w.length < fuel → readValue? fuel (w ++ rest) = some (v, rest)

theorem Reads.null : Reads "null".toList .null where
  begins := ⟨'n', "ull".toList, rfl, rfl, by decide⟩
  reads fuel rest hfuel := by
    obtain ⟨n, rfl⟩ : ∃ n, fuel = n + 1 := ⟨fuel - 1, by omega⟩
    simp [readValue?, word?, isBlank, List.isPrefixOf]

theorem Reads.bool (b : Bool) : Reads (if b then "true" else "false").toList (.bool b) where
  begins := by
    cases b with
    | false => exact ⟨'f', "alse".toList, rfl, rfl, by decide⟩
    | true => exact ⟨'t', "rue".toList, rfl, rfl, by decide⟩
  reads fuel rest hfuel := by
    obtain ⟨n, rfl⟩ : ∃ n, fuel = n + 1 := ⟨fuel - 1, by omega⟩
    cases b <;> simp [readValue?, word?, isBlank, List.isPrefixOf]

theorem Reads.text (s : String) : Reads (writeString s).toList (.text s) where
  begins := ⟨'"', _, toList_writeString s, rfl, by decide⟩
  reads fuel rest hfuel := by
    obtain ⟨n, rfl⟩ : ∃ n, fuel = n + 1 := ⟨fuel - 1, by omega⟩
    rw [toList_writeString, List.cons_append, List.append_assoc, List.singleton_append, readValue?,
      dropWhile_visible rfl]
    simp only [readString?_writeString, Option.map_some]

/-! ## Lists -/

/-- Written items with commas between them are read one by one, up to the closing bracket. -/
theorem readItems?_intercalate {gap close : List Char} (hgap : Blanks gap) (hclose : Blanks close)
    {texts : List (List Char)} {items : List Value} (hreads : List.Forall₂ Reads texts items)
    (hnonempty : texts ≠ []) {fuel : Nat} (done : List Value) (rest : List Char)
    (hfuel : (List.intercalate (',' :: gap) texts ++ close ++ [']']).length < fuel) :
    readItems? fuel done (List.intercalate (',' :: gap) texts ++ close ++ ']' :: rest)
      = some (.list (done.reverse ++ items), rest) := by
  induction hreads generalizing fuel done with
  | nil => exact absurd rfl hnonempty
  | @cons w v texts items hread hreads ih =>
      obtain ⟨n, rfl⟩ : ∃ n, fuel = n + 1 := ⟨fuel - 1, by omega⟩
      cases hreads with
      | nil =>
          have hshort : w.length < n := by
            simp only [List.intercalate_singleton, List.length_append, List.length_singleton]
              at hfuel
            omega
          rw [List.intercalate_singleton, List.append_assoc, readItems?, hread.reads n _ hshort]
          simp only [dropWhile_blanks hclose, dropWhile_visible (c := ']') rfl]
          simp
      | @cons w' v' texts items hread' hreads =>
          have hshort : w.length < n := by
            simp only [List.intercalate_cons_cons, List.length_append, List.length_cons] at hfuel
            omega
          have hless : (List.intercalate (',' :: gap) (w' :: texts) ++ close ++ [']']).length
              < n := by
            simp only [List.intercalate_cons_cons, List.length_append, List.length_cons] at hfuel ⊢
            omega
          rw [List.intercalate_cons_cons, List.append_assoc, List.append_assoc, List.append_assoc,
            readItems?, hread.reads n _ hshort]
          simp only [List.cons_append, dropWhile_visible (c := ',') rfl, readItems?_blanks hgap]
          rw [← List.append_assoc, ih (by simp) (v :: done) hless]
          simp

theorem Reads.list {first gap close : List Char} (hfirst : Blanks first) (hgap : Blanks gap)
    (hclose : Blanks close) {texts : List (List Char)} {items : List Value}
    (hreads : List.Forall₂ Reads texts items) (hnonempty : texts ≠ []) :
    Reads ('[' :: (first ++ (List.intercalate (',' :: gap) texts ++ close ++ [']'])))
      (.list items) where
  begins := ⟨'[', _, rfl, rfl, by decide⟩
  reads fuel rest hfuel := by
    obtain ⟨n, rfl⟩ : ∃ n, fuel = n + 1 := ⟨fuel - 1, by omega⟩
    have hless : (List.intercalate (',' :: gap) texts ++ close ++ [']']).length < n := by
      simp only [List.length_cons, List.length_append] at hfuel ⊢
      omega
    have hitems := readItems?_intercalate hgap hclose hreads hnonempty [] rest hless
    obtain ⟨c, t, hbegin, hvisible, hopen⟩ :
        ∃ c t, List.intercalate (',' :: gap) texts ++ close ++ ']' :: rest = c :: t
          ∧ isBlank c = false ∧ c ≠ ']' := by
      cases hreads with
      | nil => exact absurd rfl hnonempty
      | @cons w v texts items hread hreads =>
          obtain ⟨c, t, rfl, hvisible, hopen⟩ := hread.begins
          cases texts with
          | nil => exact ⟨c, _, rfl, hvisible, hopen⟩
          | cons w' texts => exact ⟨c, _, rfl, hvisible, hopen⟩
    rw [hbegin] at hitems
    have hshape : '[' :: (first ++ (List.intercalate (',' :: gap) texts ++ close ++ [']'])) ++ rest
        = '[' :: (first ++ c :: t) := by
      rw [← hbegin]
      simp
    rw [hshape, readValue?, dropWhile_visible rfl]
    simp only [dropWhile_blanks hfirst, dropWhile_visible hvisible]
    split
    · rename_i hclosing
      exact absurd (List.cons.inj hclosing).1 hopen
    · exact hitems

theorem Reads.emptyList : Reads ['[', ']'] (.list []) where
  begins := ⟨'[', [']'], rfl, rfl, by decide⟩
  reads fuel rest hfuel := by
    obtain ⟨n, rfl⟩ : ∃ n, fuel = n + 1 := ⟨fuel - 1, by omega⟩
    simp [readValue?, isBlank]

/-! ## Objects -/

/-- The field as the reader keeps it. -/
abbrev keyed (field : String × Value) : Value × Value :=
  (.text field.1, field.2)

/-- A written field: the key as a string, a colon, and a text that reads as the value. -/
def ReadsField (w : List Char) (field : String × Value) : Prop :=
  ∃ t, w = (writeString field.1).toList ++ ':' :: ' ' :: t ∧ Reads t field.2

/-- A key that was not read before comes in as a new field. -/
theorem addField_new {field : String × Value} {done : List (String × Value)}
    (h : field.1 ∉ done.map (·.1)) :
    addField field.1 field.2 (done.map keyed).reverse
      = keyed field :: (done.map keyed).reverse := by
  have hnone : (done.map keyed).reverse.any (·.1.isText field.1) = false := by
    rw [List.any_reverse, List.any_map, List.any_eq_false]
    intro other hother htext
    have hkey : other.1 = field.1 := by simpa [Value.isText] using htext
    exact h (hkey ▸ List.mem_map_of_mem hother)
  simp [addField, hnone]

/-- What is read behind a field: more fields after a comma, or the object at its closing brace. -/
def fieldsBehind? (n : Nat) (done : List (String × Value)) (s : List Char) :
    Option (Value × List Char) :=
  match s.dropWhile isBlank with
  | ',' :: s => readFields? n (done.map keyed).reverse s
  | '\x7d' :: s => some (.map (done.map keyed), s)
  | _ => none

/-- What a field is read as: the key, and then the value behind the colon. -/
theorem readFields?_field {w : List Char} {field : String × Value} (h : ReadsField w field)
    {n : Nat} (done : List (String × Value)) (hnew : field.1 ∉ done.map (·.1)) (rest : List Char)
    (hfuel : w.length < n) :
    readFields? (n + 1) (done.map keyed).reverse (w ++ rest)
      = fieldsBehind? n (done ++ [field]) rest := by
  obtain ⟨t, rfl, hread⟩ := h
  have hless : t.length < n := by
    simp only [List.length_append, List.length_cons] at hfuel
    omega
  have hvalue : readValue? n (' ' :: (t ++ rest)) = some (field.2, rest) := by
    have hblank : Blanks [' '] := by simp [Blanks, isBlank]
    rw [← List.singleton_append, readValue?_blanks hblank, hread.reads n rest hless]
  rw [toList_writeString]
  simp only [List.cons_append, List.append_assoc]
  rw [readFields?, dropWhile_visible rfl]
  simp only [List.nil_append, readString?_writeString]
  rw [dropWhile_visible rfl]
  have hmore : keyed field :: (done.map keyed).reverse
      = ((done ++ [field]).map keyed).reverse := by simp
  simp only [hvalue, addField_new hnew, hmore, List.reverse_reverse]
  rfl

/-- Written fields with commas between them are read one by one, up to the closing brace. -/
theorem readFields?_intercalate {gap close : List Char} (hgap : Blanks gap) (hclose : Blanks close)
    {texts : List (List Char)} {fields : List (String × Value)}
    (hreads : List.Forall₂ ReadsField texts fields) (hnonempty : texts ≠ []) {fuel : Nat}
    (done : List (String × Value)) (hnodup : ((done ++ fields).map (·.1)).Nodup) (rest : List Char)
    (hfuel : (List.intercalate (',' :: gap) texts ++ close ++ ['\x7d']).length < fuel) :
    readFields? fuel (done.map keyed).reverse
        (List.intercalate (',' :: gap) texts ++ close ++ '\x7d' :: rest)
      = some (.ofFields (done ++ fields), rest) := by
  induction hreads generalizing fuel done with
  | nil => exact absurd rfl hnonempty
  | @cons w field texts fields hread hreads ih =>
      obtain ⟨n, rfl⟩ : ∃ n, fuel = n + 1 := ⟨fuel - 1, by omega⟩
      have hnew : field.1 ∉ done.map (·.1) := by
        rw [List.map_append, List.map_cons, List.nodup_append] at hnodup
        intro hmem
        exact hnodup.2.2 _ hmem _ (List.mem_cons_self) rfl
      cases hreads with
      | nil =>
          have hshort : w.length < n := by
            simp only [List.intercalate_singleton, List.length_append, List.length_singleton]
              at hfuel
            omega
          rw [List.intercalate_singleton, List.append_assoc,
            readFields?_field hread done hnew _ hshort, fieldsBehind?]
          simp only [dropWhile_blanks hclose, dropWhile_visible (c := '\x7d') rfl]
          rfl
      | @cons w' field' texts fields hread' hreads =>
          have hshort : w.length < n := by
            simp only [List.intercalate_cons_cons, List.length_append, List.length_cons] at hfuel
            omega
          have hless : (List.intercalate (',' :: gap) (w' :: texts) ++ close ++ ['\x7d']).length
              < n := by
            simp only [List.intercalate_cons_cons, List.length_append, List.length_cons] at hfuel ⊢
            omega
          have hnodup' : ((done ++ [field] ++ field' :: fields).map (·.1)).Nodup := by
            simpa using hnodup
          rw [List.intercalate_cons_cons, List.append_assoc, List.append_assoc, List.append_assoc,
            readFields?_field hread done hnew _ hshort, fieldsBehind?]
          simp only [List.cons_append, dropWhile_visible (c := ',') rfl, readFields?_blanks hgap]
          rw [← List.append_assoc, ih (by simp) (done ++ [field]) hnodup' hless]
          simp

theorem Reads.object {first gap close : List Char} (hfirst : Blanks first) (hgap : Blanks gap)
    (hclose : Blanks close) {texts : List (List Char)} {fields : List (String × Value)}
    (hreads : List.Forall₂ ReadsField texts fields) (hnonempty : texts ≠ [])
    (hnodup : (fields.map (·.1)).Nodup) :
    Reads ('\x7b' :: (first ++ (List.intercalate (',' :: gap) texts ++ close ++ ['\x7d'])))
      (.ofFields fields) where
  begins := ⟨'\x7b', _, rfl, rfl, by decide⟩
  reads fuel rest hfuel := by
    obtain ⟨n, rfl⟩ : ∃ n, fuel = n + 1 := ⟨fuel - 1, by omega⟩
    have hless : (List.intercalate (',' :: gap) texts ++ close ++ ['\x7d']).length < n := by
      simp only [List.length_cons, List.length_append] at hfuel ⊢
      omega
    have hall := readFields?_intercalate hgap hclose hreads hnonempty [] (by simpa using hnodup)
      rest hless
    -- The first field begins with the quote of its key, so the object is not an empty one.
    obtain ⟨t, hbegin⟩ : ∃ t, List.intercalate (',' :: gap) texts ++ close ++ '\x7d' :: rest
        = '"' :: t := by
      cases hreads with
      | nil => exact absurd rfl hnonempty
      | @cons w field texts fields hread hreads =>
          obtain ⟨t, rfl, -⟩ := hread
          rw [toList_writeString]
          cases texts with
          | nil => exact ⟨_, rfl⟩
          | cons w' texts => exact ⟨_, rfl⟩
    rw [hbegin] at hall
    have hshape : '\x7b' :: (first ++ (List.intercalate (',' :: gap) texts ++ close ++ ['\x7d']))
        ++ rest = '\x7b' :: (first ++ '"' :: t) := by
      rw [← hbegin]
      simp
    rw [hshape, readValue?, dropWhile_visible rfl]
    simp only [dropWhile_blanks hfirst, dropWhile_visible (c := '"') rfl]
    exact hall

theorem Reads.emptyObject : Reads ['\x7b', '\x7d'] (.ofFields []) where
  begins := ⟨'\x7b', ['\x7d'], rfl, rfl, by decide⟩
  reads fuel rest hfuel := by
    obtain ⟨n, rfl⟩ : ∃ n, fuel = n + 1 := ⟨fuel - 1, by omega⟩
    simp [readValue?, isBlank, Value.ofFields]

/-! ## Values -/

/-- A line break consists of line feeds and blanks. -/
theorem mem_lineBreak {layout : Layout} {depth : Nat} {c : Char}
    (h : c ∈ (layout.lineBreak depth).toList) : c = '\n' ∨ c = ' ' := by
  cases layout with
  | compact => simp [Layout.lineBreak] at h
  | indented width =>
      simp only [Layout.lineBreak, String.toList_ofList, List.mem_cons, List.mem_replicate] at h
      exact h.imp_right And.right

theorem blanks_lineBreak (layout : Layout) (depth : Nat) :
    Blanks (layout.lineBreak depth).toList := by
  intro c hc
  rcases mem_lineBreak hc with rfl | rfl <;> rfl

/-- Between two items stand a comma and blanks. -/
theorem exists_gap (layout : Layout) (depth : Nat) :
    ∃ gap, (layout.separator ++ layout.lineBreak depth).toList = ',' :: gap ∧ Blanks gap := by
  cases layout with
  | compact =>
      exact ⟨[' '], by simp [Layout.separator, Layout.lineBreak], by simp [Blanks, isBlank]⟩
  | indented width =>
      exact ⟨_, by simp [Layout.separator], blanks_lineBreak (.indented width) depth⟩

theorem toList_enclose (layout : Layout) (opening closing : String) (depth : Nat)
    {items : List String} (h : items ≠ []) :
    (layout.enclose opening closing depth items).toList
      = opening.toList ++ ((layout.lineBreak (depth + 1)).toList
        ++ (List.intercalate (layout.separator ++ layout.lineBreak (depth + 1)).toList
            (items.map String.toList)
          ++ (layout.lineBreak depth).toList ++ closing.toList)) := by
  have hitems : items.isEmpty = false := by simpa using h
  simp [Layout.enclose, hitems, String.toList_intercalate]

theorem writeItems_eq_map (layout : Layout) (depth : Nat) (items : List Value) :
    writeItems layout depth items = items.map (writeAt layout depth) := by
  induction items with
  | nil => rfl
  | cons v items ih => rw [writeItems, ih, List.map_cons]

theorem writeFields_eq_map (layout : Layout) (depth : Nat) (fields : List (String × Value)) :
    writeFields layout depth (fields.map keyed)
      = fields.map fun field => writeString field.1 ++ ": " ++ writeAt layout depth field.2 := by
  induction fields with
  | nil => rfl
  | cons field fields ih => rw [List.map_cons, writeFields, ih, List.map_cons, writeKey]

/-- A plain value reads back from its text, at any depth. -/
theorem reads_writeAt (layout : Layout) {v : Value} (h : Plain v) (depth : Nat) :
    Reads (writeAt layout depth v).toList v := by
  induction h generalizing depth with
  | null => exact .null
  | bool b => exact .bool b
  | text s => exact .text s
  | @list items hitems ih =>
      obtain ⟨gap, hgap, hblanks⟩ := exists_gap layout (depth + 1)
      rw [writeAt, writeItems_eq_map]
      by_cases hempty : items = []
      · have htext : (layout.enclose "[" "]" depth []).toList = ['[', ']'] := by
          simp [Layout.enclose]
        rw [hempty, List.map_nil, htext]
        exact .emptyList
      · have hreads : List.Forall₂ Reads
            ((items.map (writeAt layout (depth + 1))).map String.toList) items := by
          rw [List.map_map, List.forall₂_map_left_iff, List.forall₂_same]
          exact fun v hv => ih v hv (depth + 1)
        rw [toList_enclose _ _ _ _ (by simpa using hempty), hgap]
        exact .list (blanks_lineBreak layout (depth + 1)) hblanks (blanks_lineBreak layout depth)
          hreads (by simpa using hempty)
  | @map fields hnodup hfields ih =>
      obtain ⟨gap, hgap, hblanks⟩ := exists_gap layout (depth + 1)
      rw [Value.ofFields, writeAt, writeFields_eq_map]
      by_cases hempty : fields = []
      · have htext : (layout.enclose "\x7b" "\x7d" depth []).toList = ['\x7b', '\x7d'] := by
          simp [Layout.enclose]
        rw [hempty, List.map_nil, htext]
        exact .emptyObject
      · have hreads : List.Forall₂ ReadsField
            ((fields.map fun field =>
              writeString field.1 ++ ": " ++ writeAt layout (depth + 1) field.2).map String.toList)
            fields := by
          rw [List.map_map, List.forall₂_map_left_iff, List.forall₂_same]
          intro field hfield
          exact ⟨_, by simp, ih field hfield (depth + 1)⟩
        rw [toList_enclose _ _ _ _ (by simpa using hempty), hgap]
        exact .object (blanks_lineBreak layout (depth + 1)) hblanks (blanks_lineBreak layout depth)
          hreads (by simpa using hempty) hnodup

/-- A JSON text of a plain value, with blanks behind it, is read as the value. -/
theorem read?_write (layout : Layout) {v : Value} (h : Plain v) {tail : String}
    (htail : Blanks tail.toList) : read? (write layout v ++ tail) = some v := by
  have hread := (reads_writeAt layout h 0).reads ((write layout v ++ tail).toList.length + 1)
    tail.toList (by rw [String.toList_append, List.length_append, write]; omega)
  rw [← String.toList_append] at hread
  have hblank : tail.toList.all isBlank = true := List.all_eq_true.mpr htail
  simp only [read?, write] at hread ⊢
  rw [hread]
  simp [hblank]

/-! ## Only ASCII is written -/

/-- Nothing but visible characters of ASCII, blanks and line feeds. -/
def Clean (s : List Char) : Prop :=
  ∀ c ∈ s, IsPrintableAscii c ∨ c = '\n'

theorem Clean.append {s t : List Char} (hs : Clean s) (ht : Clean t) : Clean (s ++ t) :=
  List.forall_mem_append.mpr ⟨hs, ht⟩

theorem Clean.intercalate {sep : List Char} {texts : List (List Char)} (hsep : Clean sep)
    (htexts : ∀ w ∈ texts, Clean w) : Clean (List.intercalate sep texts) := by
  induction texts with
  | nil => simp [Clean]
  | cons w texts ih =>
      have hw : Clean w := htexts w (by simp)
      have hrest := ih fun w' hw' => htexts w' (List.mem_cons_of_mem w hw')
      cases texts with
      | nil => simpa using hw
      | cons w' texts =>
          rw [List.intercalate_cons_cons]
          exact (hw.append hsep).append hrest

theorem clean_lineBreak (layout : Layout) (depth : Nat) :
    Clean (layout.lineBreak depth).toList := by
  intro c hc
  rcases mem_lineBreak hc with rfl | rfl
  · exact .inr rfl
  · exact .inl ⟨by decide, by decide⟩

theorem clean_separator (layout : Layout) : Clean layout.separator.toList := by
  cases layout <;> simp [Clean, Layout.separator, IsPrintableAscii]

theorem Clean.enclose {layout : Layout} {opening closing : String} {depth : Nat}
    {items : List String} (hopening : Clean opening.toList) (hclosing : Clean closing.toList)
    (hitems : ∀ w ∈ items, Clean w.toList) :
    Clean (layout.enclose opening closing depth items).toList := by
  by_cases hempty : items = []
  · rw [hempty, Layout.enclose, List.isEmpty_nil, if_pos rfl, String.toList_append]
    exact hopening.append hclosing
  · have hsep : Clean (layout.separator ++ layout.lineBreak (depth + 1)).toList := by
      rw [String.toList_append]
      exact (clean_separator layout).append (clean_lineBreak layout (depth + 1))
    have htexts : ∀ w ∈ items.map String.toList, Clean w := by simpa using hitems
    rw [toList_enclose _ _ _ _ hempty]
    exact hopening.append ((clean_lineBreak layout (depth + 1)).append
      (((Clean.intercalate hsep htexts).append (clean_lineBreak layout depth)).append hclosing))

theorem clean_writeString (s : String) : Clean (writeString s).toList :=
  fun _ hc => .inl (printable_writeString hc)

/-- The text of a plain value is visible ASCII, blanks and line feeds. -/
theorem clean_writeAt (layout : Layout) {v : Value} (h : Plain v) (depth : Nat) :
    Clean (writeAt layout depth v).toList := by
  induction h generalizing depth with
  | null => simp [Clean, writeAt, IsPrintableAscii]
  | bool b => cases b <;> simp [Clean, writeAt, IsPrintableAscii]
  | text s => exact clean_writeString s
  | @list items hitems ih =>
      rw [writeAt, writeItems_eq_map]
      have hopening : Clean "[".toList := by simp [Clean, IsPrintableAscii]
      have hclosing : Clean "]".toList := by simp [Clean, IsPrintableAscii]
      refine hopening.enclose hclosing ?_
      intro w hw
      obtain ⟨v, hv, rfl⟩ := List.mem_map.mp hw
      exact ih v hv (depth + 1)
  | @map fields hnodup hfields ih =>
      rw [Value.ofFields, writeAt, writeFields_eq_map]
      have hopening : Clean "\x7b".toList := by simp [Clean, IsPrintableAscii]
      have hclosing : Clean "\x7d".toList := by simp [Clean, IsPrintableAscii]
      refine hopening.enclose hclosing ?_
      intro w hw
      obtain ⟨field, hfield, rfl⟩ := List.mem_map.mp hw
      have hcolon : Clean ": ".toList := by simp [Clean, IsPrintableAscii]
      rw [String.toList_append, String.toList_append]
      exact ((clean_writeString field.1).append hcolon).append (ih field hfield (depth + 1))

end StepTrace.Json
