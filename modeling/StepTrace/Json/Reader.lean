import StepTrace.Numeral.Digits
import StepTrace.Value.Basic

/-!
# Reading JSON

A JSON text is read into a value.  The names `NaN`, `Infinity` and `-Infinity` are read as numbers,
control characters may not stand in strings, and of several fields with one key the last one counts,
in the place of the first.  A numeral with a fraction or an exponent is a floating-point number, any
other an integer of whatever size.

Every function takes the text that is left and gives what it has read together with the text behind
it.  `fuel` bounds the number of values; the length of the text is enough.

Main definition: `Json.read?`.
-/

namespace StepTrace.Json

open Numeral

/-- A blank between the parts of a JSON text. -/
def isBlank (c : Char) : Bool :=
  c == ' ' || c == '\t' || c == '\n' || c == '\r'

/-! ## Strings -/

/-- Four hexadecimal digits, and the text behind them. -/
def unit? : List Char → Option (Nat × List Char)
  | a :: b :: c :: d :: s => do
    let n := (← hexDigit? a) * 4096 + (← hexDigit? b) * 256 + (← hexDigit? c) * 16 + (← hexDigit? d)
    return (n, s)
  | _ => none

def isHighUnit (n : Nat) : Bool := 0xD800 ≤ n && n < 0xDC00

def isLowUnit (n : Nat) : Bool := 0xDC00 ≤ n && n < 0xE000

/-- The character of an escape `\u`, behind the letter: two halves of a pair make one character. -/
def unicodeEscape? (s : List Char) : Option (Char × List Char) := do
  let (high, s) ← unit? s
  if isHighUnit high then
    match s with
    | '\\' :: 'u' :: t =>
      match unit? t with
      | some (low, t) =>
        if isLowUnit low then
          return (Char.ofNat (0x10000 + (high - 0xD800) * 0x400 + (low - 0xDC00)), t)
        else return ('\ufffd', s)
      | none => none
    | _ => return ('\ufffd', s)
  else if isLowUnit high then return ('\ufffd', s)
  else return (Char.ofNat high, s)

/-- The character that a letter behind a backslash stands for. -/
def simpleEscape? : Char → Option Char
  | '"' => some '"'
  | '\\' => some '\\'
  | '/' => some '/'
  | 'b' => some '\x08'
  | 'f' => some '\x0c'
  | 'n' => some '\n'
  | 'r' => some '\r'
  | 't' => some '\t'
  | _ => none

/-- What is written of a string behind its opening quote, and the text behind its closing one;
`done` holds the characters so far in reverse. -/
def rawString? (done : List Char) : List Char → Option (List Char × List Char)
  | [] => none
  | '"' :: s => some (done.reverse, s)
  | '\\' :: c :: s => rawString? (c :: '\\' :: done) s
  | c :: s => rawString? (c :: done) s

/-- The characters that a string is written for, those so far in reverse; `fuel` bounds their
number. -/
def decode? : (fuel : Nat) → (done : List Char) → List Char → Option (List Char)
  | 0, _, _ => none
  | _, done, [] => some done.reverse
  | fuel + 1, done, '\\' :: 'u' :: s =>
    match unicodeEscape? s with
    | some (c, s) => decode? fuel (c :: done) s
    | none => none
  | fuel + 1, done, '\\' :: e :: s =>
    match simpleEscape? e with
    | some c => decode? fuel (c :: done) s
    | none => none
  | fuel + 1, done, c :: s => if c.toNat < 32 then none else decode? fuel (c :: done) s

/-- A string behind its opening quote, and the text behind it. -/
def readString? (s : List Char) : Option (String × List Char) := do
  let (raw, rest) ← rawString? [] s
  let chars ← decode? (raw.length + 1) [] raw
  return (String.ofList chars, rest)

/-! ## Numbers -/

/-- The digits of a fraction, behind the point, if there are any. -/
def fraction (s : List Char) : List Char × List Char :=
  match s with
  | '.' :: t =>
    let digits := t.takeWhile Char.isDigit
    if digits.isEmpty then ([], s) else (digits, t.dropWhile Char.isDigit)
  | _ => ([], s)

/-- The exponent, with its sign, if there is a complete one. -/
def exponent? (s : List Char) : Option (Int × List Char) :=
  match s with
  | e :: t =>
    if e = 'e' ∨ e = 'E' then
      let (negative, t) := match t with
        | '-' :: t => (true, t)
        | '+' :: t => (false, t)
        | t => (false, t)
      let digits := t.takeWhile Char.isDigit
      if digits.isEmpty then none
      else
        let n : Int := ofDigits 10 digits
        some (if negative then -n else n, t.dropWhile Char.isDigit)
    else none
  | [] => none

/-- A number, behind its sign. -/
def readNumber? (negative : Bool) (s : List Char) : Option (Value × List Char) :=
  let whole := match s with
    | '0' :: _ => ['0']
    | s => s.takeWhile Char.isDigit
  if whole.isEmpty then none
  else
    let (part, t) := fraction (s.drop whole.length)
    match exponent? t with
    | some (e, t) =>
      some (.float (.ofDecimal negative (ofDigits 10 (whole ++ part)) (e - part.length)), t)
    | none =>
      if part.isEmpty then
        let n : Int := ofDigits 10 whole
        some (.int (if negative then -n else n), t)
      else some (.float (.ofDecimal negative (ofDigits 10 (whole ++ part)) (-part.length)), t)

/-! ## Values -/

/-- Adds a field to those read so far, which are in reverse: a known key keeps its place. -/
def addField (key : String) (v : Value) (fields : List (Value × Value)) : List (Value × Value) :=
  if fields.any (·.1.isText key) then
    fields.map fun field => if field.1.isText key then (field.1, v) else field
  else (.text key, v) :: fields

/-- A word that stands for a value. -/
def word? (word : String) (v : Value) (s : List Char) : Option (Value × List Char) :=
  let word := word.toList
  if word.isPrefixOf s then some (v, s.drop word.length) else none

mutual

/-- A value, with blanks before it passed over. -/
def readValue? : (fuel : Nat) → List Char → Option (Value × List Char)
  | 0, _ => none
  | fuel + 1, s =>
    match s.dropWhile isBlank with
    | '"' :: s => (readString? s).map fun (t, s) => (.text t, s)
    | '[' :: s =>
      match s.dropWhile isBlank with
      | ']' :: s => some (.list [], s)
      | s => readItems? fuel [] s
    | '{' :: s =>
      match s.dropWhile isBlank with
      | '}' :: s => some (.map [], s)
      | s => readFields? fuel [] s
    | '-' :: 'I' :: s => word? "Infinity" (.float (.infinite true)) ('I' :: s)
    | '-' :: s => readNumber? true s
    | 'I' :: s => word? "Infinity" (.float (.infinite false)) ('I' :: s)
    | 'N' :: s => word? "NaN" (.float .nan) ('N' :: s)
    | 'n' :: s => word? "null" .null ('n' :: s)
    | 't' :: s => word? "true" (.bool true) ('t' :: s)
    | 'f' :: s => word? "false" (.bool false) ('f' :: s)
    | s => readNumber? false s

/-- The items of a list up to its closing bracket; `items` holds those read so far in reverse. -/
def readItems? : (fuel : Nat) → (items : List Value) → List Char → Option (Value × List Char)
  | 0, _, _ => none
  | fuel + 1, items, s =>
    match readValue? fuel s with
    | none => none
    | some (v, s) =>
      match s.dropWhile isBlank with
      | ',' :: s => readItems? fuel (v :: items) s
      | ']' :: s => some (.list (v :: items).reverse, s)
      | _ => none

/-- The fields of an object up to its closing brace. -/
def readFields? : (fuel : Nat) → (fields : List (Value × Value)) → List Char →
    Option (Value × List Char)
  | 0, _, _ => none
  | fuel + 1, fields, s =>
    match s.dropWhile isBlank with
    | '"' :: s =>
      match readString? s with
      | none => none
      | some (key, s) =>
        match s.dropWhile isBlank with
        | ':' :: s =>
          match readValue? fuel s with
          | none => none
          | some (v, s) =>
            match s.dropWhile isBlank with
            | ',' :: s => readFields? fuel (addField key v fields) s
            | '}' :: s => some (.map (addField key v fields).reverse, s)
            | _ => none
        | _ => none
    | _ => none

end

/-- The value of a JSON text, which holds nothing else. -/
def read? (text : String) : Option Value :=
  let s := text.toList
  match readValue? (s.length + 1) s with
  | some (v, rest) => if rest.all isBlank then some v else none
  | none => none

end StepTrace.Json
