import StepTrace.Json.Reader
import StepTrace.Json.Writer
import Mathlib.Data.List.Basic

/-!
# A written string reads back

Every character is written in one of four ways: as itself, as a letter behind a backslash, as an
escape of one unit, or as an escape of a pair of units (`Written`).  Whatever is shown of these four
holds of every string, since a string is written character by character.

Reading takes two passes, and each one is followed over a single written character first: the pass
that looks for the closing quote passes over it (`rawString?_writeChar`), and the pass that undoes
the escapes makes the character of it again (`decode?_writeChar`).  Together they give
`readString?_writeString`.
-/

namespace StepTrace.Json

open Numeral Text

/-! ## The ways to write a character -/

/-- A character together with what it may be written as. -/
inductive Written : Char → List Char → Prop where
  | plain {c : Char} (hlow : 32 ≤ c.toNat) (hhigh : c.toNat < 127) (hquote : c ≠ '"')
      (hslash : c ≠ '\\') : Written c [c]
  | letter {c e : Char} (hescape : simpleEscape? e = some c) (hlow : 32 ≤ e.toNat)
      (hhigh : e.toNat < 127) : Written c ['\\', e]
  | unit {c : Char} (hunit : c.toNat < 0x10000) : Written c (unitEscape c.toNat)
  | pair {c : Char} (hpair : 0x10000 ≤ c.toNat) :
      Written c (unitEscape (0xD800 + (c.toNat - 0x10000) / 0x400)
        ++ unitEscape (0xDC00 + (c.toNat - 0x10000) % 0x400))

theorem written_writeChar (c : Char) : Written c (writeChar c) := by
  have letter (e : Char) (hescape : simpleEscape? e = some c) (hlow : 32 ≤ e.toNat)
      (hhigh : e.toNat < 127) : Written c ['\\', e] := .letter hescape hlow hhigh
  unfold writeChar
  split_ifs with hquote hslash hfeed hreturn htab hpage hback hplain hunit
  · exact letter '"' (by rw [hquote]; rfl) (by decide) (by decide)
  · exact letter '\\' (by rw [hslash]; rfl) (by decide) (by decide)
  · exact letter 'n' (hfeed ▸ rfl) (by decide) (by decide)
  · exact letter 'r' (hreturn ▸ rfl) (by decide) (by decide)
  · exact letter 't' (htab ▸ rfl) (by decide) (by decide)
  · exact letter 'f' (hpage ▸ rfl) (by decide) (by decide)
  · exact letter 'b' (hback ▸ rfl) (by decide) (by decide)
  · exact .plain hplain.1 hplain.2 hquote hslash
  · exact .unit hunit
  · exact .pair (Nat.le_of_not_lt hunit)

/-! ## Hexadecimal digits -/

theorem hexDigit?_digitChar {d : Nat} (h : d < 16) : hexDigit? (Nat.digitChar d) = some d := by
  revert d
  decide

theorem digitChar_printable {d : Nat} (h : d < 16) :
    32 ≤ (Nat.digitChar d).toNat ∧ (Nat.digitChar d).toNat < 127
      ∧ Nat.digitChar d ≠ '"' ∧ Nat.digitChar d ≠ '\\' := by
  revert d
  decide

theorem exists_digit_of_mem_hexDigits {width n : Nat} {c : Char} (h : c ∈ hexDigits width n) :
    ∃ d < 16, c = Nat.digitChar d := by
  induction width generalizing n with
  | zero => cases h
  | succ width ih =>
      rcases List.mem_append.mp h with hfront | hlast
      · exact ih hfront
      · exact ⟨n % 16, Nat.mod_lt n (by decide), List.mem_singleton.mp hlast⟩

/-- Four digits give back a number of sixteen bits. -/
theorem unit?_hexDigits {n : Nat} (h : n < 0x10000) (rest : List Char) :
    unit? (hexDigits 4 n ++ rest) = some (n, rest) := by
  have hdigit (m : Nat) : hexDigit? (Nat.digitChar (m % 16)) = some (m % 16) :=
    hexDigit?_digitChar (Nat.mod_lt m (by decide))
  have hvalue : n / 16 / 16 / 16 % 16 * 4096 + n / 16 / 16 % 16 * 256 + n / 16 % 16 * 16 + n % 16
      = n := by omega
  simp [hexDigits, unit?, hdigit, hvalue]

/-! ## Undoing the escapes -/

/-- No character has the number of half a pair. -/
theorem not_half (c : Char) : isHighUnit c.toNat = false ∧ isLowUnit c.toNat = false := by
  have hvalid : c.toNat < 0xD800 ∨ 0xDFFF < c.toNat ∧ c.toNat < 0x110000 := c.valid
  simp only [isHighUnit, isLowUnit, Bool.and_eq_false_iff, decide_eq_false_iff_not]
  omega

theorem toNat_lt (c : Char) : c.toNat < 0x110000 := by
  have hvalid : c.toNat < 0xD800 ∨ 0xDFFF < c.toNat ∧ c.toNat < 0x110000 := c.valid
  omega

theorem unicodeEscape?_unit {c : Char} (h : c.toNat < 0x10000) (rest : List Char) :
    unicodeEscape? (hexDigits 4 c.toNat ++ rest) = some (c, rest) := by
  obtain ⟨hhigh, hlow⟩ := not_half c
  simp [unicodeEscape?, unit?_hexDigits h, hhigh, hlow]

/-- The two halves of a pair are read as one character. -/
theorem unicodeEscape?_halves {high low : Nat} (hhigh : isHighUnit high = true)
    (hlow : isLowUnit low = true) (rest : List Char) :
    unicodeEscape? (hexDigits 4 high ++ (unitEscape low ++ rest))
      = some (Char.ofNat (0x10000 + (high - 0xD800) * 0x400 + (low - 0xDC00)), rest) := by
  have hhigh' : high < 0x10000 := by
    simp only [isHighUnit, Bool.and_eq_true, decide_eq_true_eq] at hhigh
    omega
  have hlow' : low < 0x10000 := by
    simp only [isLowUnit, Bool.and_eq_true, decide_eq_true_eq] at hlow
    omega
  simp [unicodeEscape?, unit?_hexDigits hhigh', unit?_hexDigits hlow', hhigh, hlow, unitEscape]

theorem unicodeEscape?_pair {c : Char} (h : 0x10000 ≤ c.toNat) (rest : List Char) :
    unicodeEscape? (hexDigits 4 (0xD800 + (c.toNat - 0x10000) / 0x400)
      ++ (unitEscape (0xDC00 + (c.toNat - 0x10000) % 0x400) ++ rest)) = some (c, rest) := by
  have hbound := toNat_lt c
  have hhigh : isHighUnit (0xD800 + (c.toNat - 0x10000) / 0x400) = true := by
    simp only [isHighUnit, Bool.and_eq_true, decide_eq_true_eq]
    omega
  have hlow : isLowUnit (0xDC00 + (c.toNat - 0x10000) % 0x400) = true := by
    simp only [isLowUnit, Bool.and_eq_true, decide_eq_true_eq]
    omega
  have hnumber : 0x10000 + (0xD800 + (c.toNat - 0x10000) / 0x400 - 0xD800) * 0x400
      + (0xDC00 + (c.toNat - 0x10000) % 0x400 - 0xDC00) = c.toNat := by omega
  rw [unicodeEscape?_halves hhigh hlow, hnumber, Char.ofNat_toNat]

/-- A written character is read as the character. -/
theorem decode?_writeChar (fuel : Nat) (done : List Char) (c : Char) (rest : List Char) :
    decode? (fuel + 1) done (writeChar c ++ rest) = decode? fuel (c :: done) rest := by
  generalize hout : writeChar c = out
  have hwritten : Written c out := hout ▸ written_writeChar c
  cases hwritten with
  | plain hlow hhigh hquote hslash =>
      have hcontrol : ¬ c.toNat < 32 := Nat.not_lt.mpr hlow
      simp [decode?, hslash, hcontrol]
  | @letter e hescape hlow hhigh =>
      have hletter : e ≠ 'u' := by
        rintro rfl
        simp [simpleEscape?] at hescape
      simp [decode?, hescape]
  | unit hunit =>
      simp only [unitEscape, List.cons_append, decode?, unicodeEscape?_unit hunit]
  | pair hpair =>
      rw [List.append_assoc]
      simp only [unitEscape, List.cons_append, decode?]
      have hread := unicodeEscape?_pair hpair rest
      simp only [unitEscape, List.cons_append] at hread
      rw [hread]

theorem decode?_flatMap_writeChar {fuel : Nat} {cs : List Char} (hfuel : cs.length < fuel)
    (done : List Char) : decode? fuel done (cs.flatMap writeChar) = some (done.reverse ++ cs) := by
  induction cs generalizing fuel done with
  | nil =>
      obtain ⟨fuel, rfl⟩ : ∃ n, fuel = n + 1 := ⟨fuel - 1, by simp at hfuel; omega⟩
      rw [List.append_nil]
      rfl
  | cons c cs ih =>
      obtain ⟨fuel, rfl⟩ : ∃ n, fuel = n + 1 := ⟨fuel - 1, by simp at hfuel; omega⟩
      have hless : cs.length < fuel := by simpa using hfuel
      rw [List.flatMap_cons, decode?_writeChar, ih hless]
      simp

/-! ## Looking for the closing quote -/

theorem rawString?_closing (done rest : List Char) :
    rawString? done ('"' :: rest) = some (done.reverse, rest) :=
  rfl

theorem rawString?_escape (c : Char) (done rest : List Char) :
    rawString? done ('\\' :: c :: rest) = rawString? (c :: '\\' :: done) rest :=
  rfl

theorem rawString?_append {front : List Char} (h : ∀ c ∈ front, c ≠ '"' ∧ c ≠ '\\')
    (done rest : List Char) :
    rawString? done (front ++ rest) = rawString? (front.reverse ++ done) rest := by
  induction front generalizing done with
  | nil => rfl
  | cons c front ih =>
      obtain ⟨hquote, hslash⟩ := h c (by simp)
      have hpass : rawString? done (c :: (front ++ rest))
          = rawString? (c :: done) (front ++ rest) := by simp [rawString?, hslash]
      rw [List.cons_append, hpass, ih fun d hd => h d (List.mem_cons_of_mem c hd)]
      simp

theorem rawString?_unitEscape (n : Nat) (done rest : List Char) :
    rawString? done (unitEscape n ++ rest) = rawString? ((unitEscape n).reverse ++ done) rest := by
  have hdigits : ∀ c ∈ hexDigits 4 n, c ≠ '"' ∧ c ≠ '\\' := by
    intro c hc
    obtain ⟨d, hd, rfl⟩ := exists_digit_of_mem_hexDigits hc
    exact (digitChar_printable hd).2.2
  simp only [unitEscape, List.cons_append, rawString?_escape]
  rw [rawString?_append hdigits]
  simp

/-- No written character holds a quote that would close the string. -/
theorem rawString?_writeChar (c : Char) (done rest : List Char) :
    rawString? done (writeChar c ++ rest) = rawString? ((writeChar c).reverse ++ done) rest := by
  generalize hout : writeChar c = out
  have hwritten : Written c out := hout ▸ written_writeChar c
  cases hwritten with
  | plain hlow hhigh hquote hslash => exact rawString?_append (by simp [hquote, hslash]) done rest
  | letter => simp [rawString?_escape]
  | unit => exact rawString?_unitEscape c.toNat done rest
  | pair =>
      rw [List.append_assoc, rawString?_unitEscape, rawString?_unitEscape]
      simp

theorem rawString?_flatMap_writeChar (cs done rest : List Char) :
    rawString? done (cs.flatMap writeChar ++ '"' :: rest)
      = some (done.reverse ++ cs.flatMap writeChar, rest) := by
  induction cs generalizing done with
  | nil => simp [rawString?_closing]
  | cons c cs ih =>
      rw [List.flatMap_cons, List.append_assoc, rawString?_writeChar, ih]
      simp

/-! ## Strings -/

theorem length_le_flatMap_writeChar (cs : List Char) :
    cs.length ≤ (cs.flatMap writeChar).length := by
  have hone (c : Char) : 1 ≤ (writeChar c).length := by
    generalize hout : writeChar c = out
    have hwritten : Written c out := hout ▸ written_writeChar c
    cases hwritten <;> simp [unitEscape]
  induction cs with
  | nil => simp
  | cons c cs ih =>
      have := hone c
      simp only [List.flatMap_cons, List.length_cons, List.length_append]
      omega

/-- A written string reads back, whatever follows it. -/
theorem readString?_writeString (s : String) (rest : List Char) :
    readString? (s.toList.flatMap writeChar ++ '"' :: rest) = some (s, rest) := by
  have hfuel : s.toList.length < (s.toList.flatMap writeChar).length + 1 :=
    Nat.lt_succ_of_le (length_le_flatMap_writeChar s.toList)
  simp only [readString?, rawString?_flatMap_writeChar, List.reverse_nil, List.nil_append,
    Option.bind_eq_bind, Option.bind_some, decode?_flatMap_writeChar hfuel, Option.pure_def,
    String.ofList_toList]

theorem toList_writeString (s : String) :
    (writeString s).toList = '"' :: (s.toList.flatMap writeChar ++ ['"']) := by
  simp [writeString]

/-! ## Only ASCII is written -/

/-- A visible character of ASCII, or a blank. -/
def IsPrintableAscii (c : Char) : Prop :=
  32 ≤ c.toNat ∧ c.toNat < 127

theorem printable_unitEscape {n : Nat} {d : Char} (h : d ∈ unitEscape n) : IsPrintableAscii d := by
  simp only [unitEscape, List.mem_cons] at h
  rcases h with rfl | rfl | hdigit
  · exact ⟨by decide, by decide⟩
  · exact ⟨by decide, by decide⟩
  · obtain ⟨k, hk, rfl⟩ := exists_digit_of_mem_hexDigits hdigit
    exact ⟨(digitChar_printable hk).1, (digitChar_printable hk).2.1⟩

theorem printable_writeChar {c d : Char} (h : d ∈ writeChar c) : IsPrintableAscii d := by
  generalize hout : writeChar c = out at h
  have hwritten : Written c out := hout ▸ written_writeChar c
  cases hwritten with
  | plain hlow hhigh => simp_all [IsPrintableAscii]
  | letter hescape hlow hhigh =>
      rcases List.mem_cons.mp h with rfl | hlast
      · exact ⟨by decide, by decide⟩
      · rw [List.mem_singleton.mp hlast]
        exact ⟨hlow, hhigh⟩
  | unit => exact printable_unitEscape h
  | pair =>
      rcases List.mem_append.mp h with hhigh | hlow
      · exact printable_unitEscape hhigh
      · exact printable_unitEscape hlow

theorem printable_writeString {s : String} {d : Char} (h : d ∈ (writeString s).toList) :
    IsPrintableAscii d := by
  rw [toList_writeString] at h
  simp only [List.mem_cons, List.mem_append, List.mem_flatMap, List.not_mem_nil, or_false] at h
  rcases h with rfl | ⟨c, -, hc⟩ | rfl
  · exact ⟨by decide, by decide⟩
  · exact printable_writeChar hc
  · exact ⟨by decide, by decide⟩

end StepTrace.Json
