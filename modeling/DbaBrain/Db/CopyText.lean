import Std.Data.String.ToInt
import DbaBrain.Foundation.Delimited
import DbaBrain.Foundation.Execution
import DbaBrain.Foundation.Json
import DbaBrain.Foundation.Text

/-!
# A batch of rows through `COPY`

`encode_copy_value` writes one value as a field; `_copy_chunk` joins the fields
of a row by tabs and ends each row with a newline.  The server cuts the text
into lines and fields, undoes the escapes and reads each field as its column's
type.  What it stores is the value as the column's type has it: a value of the
column's own kind comes through unchanged but for the NULs of a text.
-/

namespace DbaBrain.Db.CopyText

open DbaBrain.Foundation
open DbaBrain.Foundation.Delimited

/-! ## The values -/

/-- A value of an SQLite row; `F` is the type of its floats. -/
inductive Value (F : Type)
  | null
  | integer (value : Int64)
  | real (value : F)
  | text (value : String)
  | blob (value : List UInt8)

inductive TargetType
  | bigint
  | doublePrecision
  | bytea
  | text
  | numeric

structure Column where
  name : String
  targetType : TargetType

structure Table where
  name : String
  columns : List Column
  some_column : columns ≠ []

structure Row (F : Type) (table : Table) where
  values : List (Value F)
  width : values.length = table.columns.length

/-- `MigrationError`: a value its column's type cannot hold. -/
structure MigrationError (F : Type) where
  table : String
  column : String
  value : Value F

/-- `str` of an `int`. -/
def decimal (value : Int) : List Char := value.repr.toList

/-- The characters that end a field, a line or the text, and the mark that escapes them. -/
def special : List Char := ['\\', '\t', '\n', '\r', Char.ofNat 0]

/-- The interpreter's floats, and the digits its character table knows. -/
structure Python (F : Type) where
  digit : Char → Option Nat
  repr : F → List Char
  ofInt : Int → F
  ofText : List Char → Option F
  ofBytes : List UInt8 → Option F
  repr_bare : ∀ x, ∀ c ∈ repr x, c ∉ special

/-! ## UTF-8 -/

def utf8 (chars : List Char) : List UInt8 := chars.flatMap String.utf8EncodeChar

/-- What a first byte announces: its own bits, how many bytes follow, and the bounds of the next one. -/
def utf8Lead (byte : Nat) : Option (Nat × Nat × Nat × Nat) :=
  if byte < 0x80 then some (byte, 0, 0, 0)
  else if byte < 0xC2 then none
  else if byte < 0xE0 then some (byte - 0xC0, 1, 0x80, 0xBF)
  else if byte = 0xE0 then some (0, 2, 0xA0, 0xBF)
  else if byte = 0xED then some (0xD, 2, 0x80, 0x9F)
  else if byte < 0xF0 then some (byte - 0xE0, 2, 0x80, 0xBF)
  else if byte = 0xF0 then some (0, 3, 0x90, 0xBF)
  else if byte < 0xF4 then some (byte - 0xF0, 3, 0x80, 0xBF)
  else if byte = 0xF4 then some (4, 3, 0x80, 0x8F)
  else none

/-- The continuation bytes of a character: its code, or how many of them were there. -/
def utf8Continue : Nat → Nat → Nat → Nat → List UInt8 → Nat ⊕ Nat
  | code, 0, _, _, _ => .inl code
  | _, _ + 1, _, _, [] => .inr 0
  | code, more + 1, low, high, byte :: rest =>
      if low ≤ byte.toNat ∧ byte.toNat ≤ high then
        (utf8Continue (code * 64 + (byte.toNat - 0x80)) more 0x80 0xBF rest).map id (· + 1)
      else .inr 0

/-- `U+FFFD`. -/
def replacement : Char := Char.ofNat 0xFFFD

/-- The next character, and how many further bytes it or its ill-formed beginning takes. -/
def utf8Next (byte : UInt8) (rest : List UInt8) : Char × Nat :=
  match utf8Lead byte.toNat with
  | none => (replacement, 0)
  | some (bits, more, low, high) =>
      match utf8Continue bits more low high rest with
      | .inl code => (Char.ofNat code, more)
      | .inr taken => (replacement, taken)

/-- `bytes.decode("utf-8", errors="replace")`; the first argument counts bytes already taken. -/
def decodeReplaceFrom : Nat → List UInt8 → List Char
  | _, [] => []
  | taken + 1, _ :: rest => decodeReplaceFrom taken rest
  | 0, byte :: rest => (utf8Next byte rest).1 :: decodeReplaceFrom (utf8Next byte rest).2 rest

def decodeReplace (bytes : List UInt8) : List Char := decodeReplaceFrom 0 bytes

example : decodeReplace (utf8 "Đ✓𝛼".toList ++ [0xE2, 0x9C, 0x41, 0xFF]) =
    "Đ✓𝛼".toList ++ [replacement, 'A', replacement] := by decide +kernel

/-! ## Python's readings -/

def hexDigit (n : Nat) : Char := "0123456789abcdef".toList.getD n '0'

/-- `bytes.hex()`. -/
def hex (bytes : List UInt8) : List Char :=
  bytes.flatMap fun byte => [hexDigit (byte.toNat / 16), hexDigit (byte.toNat % 16)]

/-- `repr` of a `bytes`. -/
def bytesRepr (bytes : List UInt8) : List Char :=
  let quote : UInt8 := if 39 ∈ bytes ∧ 34 ∉ bytes then 34 else 39
  let char (byte : UInt8) : Char := Char.ofNat byte.toNat
  let written (byte : UInt8) : List Char :=
    if byte = quote ∨ byte = 92 then ['\\', char byte]
    else if byte = 9 then ['\\', 't']
    else if byte = 10 then ['\\', 'n']
    else if byte = 13 then ['\\', 'r']
    else if byte < 32 ∨ 127 ≤ byte then ['\\', 'x'] ++ hex [byte]
    else [char byte]
  'b' :: char quote :: bytes.flatMap written ++ [char quote]

section Python

variable {F : Type} (python : Python F)

/-- `str(value)`. -/
def str : Value F → List Char
  | .null => "None".toList
  | .integer value => decimal value.toInt
  | .real value => python.repr value
  | .text value => value.toList
  | .blob value => bytesRepr value

/-- Digits, with single underscores between them. -/
def readDigits (digit : Char → Option Nat) : Nat → Bool → List Char → Option Nat
  | value, ended, [] => if ended then some value else none
  | value, ended, c :: rest =>
      if c = '_' then if ended then readDigits digit value false rest else none
      else
        match digit c with
        | none => none
        | some unit => readDigits digit (value * 10 + unit) true rest

/-- `sys.get_int_max_str_digits()`. -/
def maxStrDigits : Nat := 4300

/-- `int(text)`. -/
def pyInt (text : List Char) : Option Int :=
  let stripped := Text.stripChars text
  if maxStrDigits < (stripped.filter fun c => (python.digit c).isSome).length then none
  else
    match stripped with
    | '-' :: digits => (readDigits python.digit 0 false digits).map fun value => -(value : Int)
    | '+' :: digits => (readDigits python.digit 0 false digits).map Int.ofNat
    | digits => (readDigits python.digit 0 false digits).map Int.ofNat

/-- `float(value)`. -/
def pyFloat : Value F → Option F
  | .null => none
  | .integer value => some (python.ofInt value.toInt)
  | .real value => some value
  | .text value => python.ofText value.toList
  | .blob value => python.ofBytes value

/-! ## Encoding -/

/-- `text.replace(old, new)`, of one character. -/
def replace (old : Char) (new : List Char) (text : List Char) : List Char :=
  text.flatMap fun c => if c = old then new else [c]

/-- The value as text, less its NULs. -/
def bareText (value : Value F) : List Char :=
  let text := match value with
    | .blob bytes => decodeReplace bytes
    | other => str python other
  text.filter (· ≠ Char.ofNat 0)

def escaped (text : List Char) : List Char :=
  replace '\r' ['\\', 'r'] (replace '\n' ['\\', 'n'] (replace '\t' ['\\', 't'] (replace '\\' ['\\', '\\'] text)))

def encodeCopyValue (targetType : TargetType) (table column : String) (value : Value F) :
    Except (MigrationError F) (List Char) :=
  match value with
  | .null => .ok ['\\', 'N']
  | value =>
      match targetType with
      | .bigint =>
          match value with
          | .integer value => .ok (decimal value.toInt)
          | value =>
              match pyInt python (Text.stripChars (str python value)) with
              | some number => .ok (decimal number)
              | none => .error ⟨table, column, value⟩
      | .doublePrecision =>
          match pyFloat python value with
          | some number => .ok (python.repr number)
          | none => .error ⟨table, column, value⟩
      | .bytea =>
          match value with
          | .blob bytes => .ok (['\\', '\\', 'x'] ++ hex bytes)
          | value => .ok (['\\', '\\', 'x'] ++ hex (utf8 (str python value)))
      | .text | .numeric => .ok (escaped (bareText python value))

/-- The fields of one row. -/
def encodeRow (table : Table) (row : Row F table) : Except (MigrationError F) (List (List Char)) :=
  (table.columns.zip row.values).mapM fun (column, value) =>
    encodeCopyValue python column.targetType table.name column.name value

def lineOf (fields : List (List Char)) : List Char := ['\t'].intercalate fields ++ ['\n']

/-- `_copy_chunk`: what it streams to the server. -/
def copyChunk (table : Table) (rows : List (Row F table)) : Except (MigrationError F) (List Char) := do
  let lines ← rows.mapM (encodeRow python table)
  return lines.flatMap lineOf

end Python

/-! ## The server's reading -/

/-- What a column holds. -/
inductive Cell (F N : Type)
  | null
  | int8 (value : Int)
  | float8 (value : F)
  | bytea (value : List UInt8)
  | text (value : String)
  | numeric (value : N)

/-- The range of a `BIGINT`. -/
def inInt8 (value : Int) : Bool := -2 ^ 63 ≤ value && value < 2 ^ 63

/-- The server's input functions of its types. -/
structure Postgres {F : Type} (python : Python F) (N : Type) where
  int8In : List Char → Option Int
  float8In : List Char → Option F
  byteaIn : List Char → Option (List UInt8)
  numericIn : List Char → Option N
  int8In_decimal : ∀ value : Int, int8In (decimal value) = if inInt8 value then some value else none
  float8In_repr : ∀ value, float8In (python.repr value) = some value
  byteaIn_hex : ∀ bytes, byteaIn (['\\', 'x'] ++ hex bytes) = some bytes

def octal (c : Char) : Bool := '0' ≤ c && c ≤ '7'

def hexValue (c : Char) : Option Nat :=
  if c.isDigit then some (c.toNat - 48)
  else if 'a' ≤ c ∧ c ≤ 'f' then some (c.toNat - 87)
  else if 'A' ≤ c ∧ c ≤ 'F' then some (c.toNat - 55)
  else none

/-- A byte given by its number; one above `0x7F` is no character of its own, and is refused. -/
def byteChar (value taken : Nat) : Option (Char × Nat) :=
  if value % 256 < 128 then some (Char.ofNat (value % 256), taken) else none

/-- What follows a backslash stands for a character; how many characters it takes. -/
def escapeSequence (text : List Char) : Option (Char × Nat) :=
  match text with
  | [] => some ('\\', 0)
  | 'b' :: _ => some (Char.ofNat 8, 1)
  | 'f' :: _ => some (Char.ofNat 12, 1)
  | 'n' :: _ => some ('\n', 1)
  | 'r' :: _ => some ('\r', 1)
  | 't' :: _ => some ('\t', 1)
  | 'v' :: _ => some (Char.ofNat 11, 1)
  | 'x' :: rest =>
      let digits := ((rest.map hexValue).takeWhile Option.isSome).take 2
      if digits = [] then some ('x', 1)
      else byteChar (digits.foldl (fun value digit => value * 16 + digit.getD 0) 0) (digits.length + 1)
  | c :: rest =>
      let digits := ((c :: rest).takeWhile octal).take 3
      if digits = [] then some (c, 1)
      else byteChar (digits.foldl (fun value digit => value * 8 + (digit.toNat - 48)) 0) digits.length

/-- The field's text; the first argument counts characters an escape already took. -/
def unescape : Nat → List Char → Option (List Char)
  | _, [] => some []
  | taken + 1, _ :: rest => unescape taken rest
  | 0, c :: rest =>
      if c = '\\' then
        (escapeSequence rest).bind fun (char, taken) => (unescape taken rest).map (char :: ·)
      else (unescape 0 rest).map (c :: ·)

/-- A field that is the NULL marker before its escapes are undone is a NULL. -/
def readField (field : List Char) : Option (Option (List Char)) :=
  if field = ['\\', 'N'] then some none else (unescape 0 field).map some

/-- The lines up to the end of the data, or its marker; a bare carriage return is refused. -/
def readLines (text : List Char) : Option (List (List Char)) :=
  if (cut '\\' '\r' text).length = 1 then
    let lines := cut '\\' '\n' text
    some ((if lines.getLast? = some [] then lines.dropLast else lines).takeWhile (· ≠ ['\\', '.']))
  else none

section Server

variable {F N : Type} {python : Python F} (postgres : Postgres python N)

def readCell (targetType : TargetType) : Option (List Char) → Option (Cell F N)
  | none => some .null
  | some text =>
      match targetType with
      | .bigint => (postgres.int8In text).map .int8
      | .doublePrecision => (postgres.float8In text).map .float8
      | .bytea => (postgres.byteaIn text).map .bytea
      | .text => if Char.ofNat 0 ∈ text then none else some (.text (String.ofList text))
      | .numeric => (postgres.numericIn text).map .numeric

def readRow (columns : List Column) (line : List Char) : Option (List (Cell F N)) :=
  let fields := cut '\\' '\t' line
  if fields.length = columns.length then
    (columns.zip fields).mapM fun (column, field) =>
      (readField field).bind (readCell postgres column.targetType)
  else none

/-- `COPY ... FROM STDIN WITH (FORMAT text)`. -/
def copyFrom (table : Table) (text : List Char) : Option (List (List (Cell F N))) :=
  (readLines text).bind fun lines => lines.mapM (readRow postgres table.columns)

/-! ## What the columns end up with -/

/-- The value as its column's type has it. -/
def received (targetType : TargetType) (value : Value F) : Option (Cell F N) :=
  match targetType, value with
  | _, .null => some .null
  | .bigint, .integer value => some (.int8 value.toInt)
  | .bigint, value =>
      (pyInt python (Text.stripChars (str python value))).bind fun number =>
        if inInt8 number then some (.int8 number) else none
  | .doublePrecision, value => (pyFloat python value).map .float8
  | .bytea, .blob bytes => some (.bytea bytes)
  | .bytea, value => some (.bytea (utf8 (str python value)))
  | .text, value => some (.text (String.ofList (bareText python value)))
  | .numeric, value => (postgres.numericIn (bareText python value)).map .numeric

def ServerRefuses : TargetType → Value F → Prop
  | _, .null => False
  | .bigint, .integer _ => False
  | .bigint, value => ∃ number, pyInt python (Text.stripChars (str python value)) = some number ∧ inInt8 number = false
  | .numeric, value => postgres.numericIn (bareText python value) = none
  | _, _ => False

def receivedRow (table : Table) (row : Row F table) : Option (List (Cell F N)) :=
  (table.columns.zip row.values).mapM fun (column, value) => received postgres column.targetType value

end Server

/-! ## A field read back -/

/-- The field is cut from its line whole, is no end of the data, and is read as the text, or as a NULL. -/
structure Reads (field : List Char) (text : Option (List Char)) : Prop where
  whole : ∀ separator ∈ ['\t', '\n', '\r'], Whole '\\' separator field
  marker : field ≠ ['\\', '.']
  read : readField field = some text

theorem reads_null : Reads ['\\', 'N'] none where
  whole _ _ := .covered .nil
  marker := by decide
  read := rfl

variable {c : Char} {text : List Char} {separator : Char}

theorem unescape_plain (unmarked : c ≠ '\\') (rest : List Char) :
    unescape 0 (c :: rest) = (unescape 0 rest).map (c :: ·) :=
  if_neg unmarked

theorem unescape_bare (bare : ∀ c ∈ text, c ∉ special) : unescape 0 text = some text := by
  induction text with
  | nil => rfl
  | cons c rest ih =>
    have unmarked : c ≠ '\\' := by
      rintro rfl
      exact bare _ List.mem_cons_self (by decide)
    rw [unescape_plain unmarked, ih fun other member => bare other (List.mem_cons_of_mem _ member)]
    rfl

theorem not_special (separates : separator ∈ ['\t', '\n', '\r']) : separator ∈ special :=
  List.mem_cons_of_mem _ (List.mem_append_left [Char.ofNat 0] separates)

theorem whole_bare (bare : ∀ c ∈ text, c ∉ special) (separates : separator ∈ ['\t', '\n', '\r']) :
    Whole '\\' separator text := by
  refine Whole.of_forall ?_
  intro c member
  constructor
  · rintro rfl
    exact bare _ member (by decide)
  · rintro rfl
    exact bare _ member (not_special separates)

/-- A text with none of the special characters is its own field. -/
theorem reads_bare (bare : ∀ c ∈ text, c ∉ special) : Reads text (some text) where
  whole _ separates := whole_bare bare separates
  marker := by
    rintro rfl
    exact bare _ List.mem_cons_self (by decide)
  read := by
    have escapes : text ≠ ['\\', 'N'] := by
      rintro rfl
      exact bare _ List.mem_cons_self (by decide)
    unfold readField
    rw [if_neg escapes, unescape_bare bare]
    rfl

/-- What a character of a text is written as. -/
def escapeChar (c : Char) : List Char :=
  if c = '\\' then ['\\', '\\']
  else if c = '\t' then ['\\', 't']
  else if c = '\n' then ['\\', 'n']
  else if c = '\r' then ['\\', 'r']
  else [c]

/-- The four replacements, one after another, escape each character once. -/
theorem escaped_eq (text : List Char) : escaped text = text.flatMap escapeChar := by
  unfold escaped replace
  rw [List.flatMap_assoc, List.flatMap_assoc, List.flatMap_assoc]
  refine List.flatMap_congr ?_
  intro c _
  unfold escapeChar
  by_cases mark : c = '\\'
  · subst mark
    decide
  · by_cases tab : c = '\t'
    · subst tab
      decide
    · by_cases newline : c = '\n'
      · subst newline
        decide
      · simp [mark, tab, newline]

theorem whole_escapeChar (c : Char) (separates : separator ∈ ['\t', '\n', '\r']) :
    Whole '\\' separator (escapeChar c) := by
  unfold escapeChar
  split
  · exact .covered .nil
  · split
    · exact .covered .nil
    · split
      · exact .covered .nil
      · split
        · exact .covered .nil
        · rename_i mark tab newline carriage
          refine .plain mark ?_ .nil
          rintro rfl
          simp only [List.mem_cons, List.not_mem_nil, or_false] at separates
          rcases separates with same | same | same
          · exact tab same
          · exact newline same
          · exact carriage same

theorem unescape_escapeChar (c : Char) (rest : List Char) :
    unescape 0 (escapeChar c ++ rest) = (unescape 0 rest).map (c :: ·) := by
  unfold escapeChar
  split
  · rename_i same
    subst same
    rfl
  · split
    · rename_i same
      subst same
      rfl
    · split
      · rename_i same
        subst same
        rfl
      · split
        · rename_i same
          subst same
          rfl
        · rename_i mark _ _ _
          exact unescape_plain mark rest

theorem unescape_escaped (text : List Char) : unescape 0 (text.flatMap escapeChar) = some text := by
  induction text with
  | nil => rfl
  | cons c rest ih =>
    rw [List.flatMap_cons, unescape_escapeChar, ih]
    rfl

/-- A mark in an escaped text is followed by a mark or the letter of a blank. -/
theorem escaped_pair {rest : List Char} (starts : text.flatMap escapeChar = '\\' :: c :: rest) :
    c ∈ ['\\', 't', 'n', 'r'] := by
  cases text with
  | nil => cases starts
  | cons first others =>
    rw [List.flatMap_cons] at starts
    unfold escapeChar at starts
    split at starts
    · cases starts
      decide
    · split at starts
      · cases starts
        decide
      · split at starts
        · cases starts
          decide
        · split at starts
          · cases starts
            decide
          · rename_i mark _ _ _
            exact absurd (List.cons.inj starts).1 mark

theorem reads_escaped (text : List Char) : Reads (escaped text) (some text) := by
  rw [escaped_eq]
  refine ⟨fun separator separates => Whole.flatMap fun c _ => whole_escapeChar c separates, ?_, ?_⟩
  · intro ends
    exact absurd (escaped_pair ends) (by decide)
  · have escapes : text.flatMap escapeChar ≠ ['\\', 'N'] := by
      intro marked
      exact absurd (escaped_pair marked) (by decide)
    unfold readField
    rw [if_neg escapes, unescape_escaped]
    rfl

theorem digit_bare (digit : c.isDigit = true ∨ c = '-') : c ∉ special := by
  rintro among
  rcases digit with digit | rfl
  · simp only [special, List.mem_cons, List.not_mem_nil, or_false] at among
    rcases among with rfl | rfl | rfl | rfl | rfl
    all_goals exact absurd digit (by decide)
  · exact absurd among (by decide)

/-- A number in decimals is its own field. -/
theorem reads_decimal (value : Int) : Reads (decimal value) (some (decimal value)) :=
  reads_bare fun c member => digit_bare (Json.intChar value c member)

theorem hex_bare (bytes : List UInt8) : ∀ c ∈ hex bytes, c ∉ special := by
  have digits : ∀ n < 16, hexDigit n ∉ special := by decide
  intro c member
  obtain ⟨byte, -, written⟩ := List.mem_flatMap.mp member
  have bound : byte.toNat < 256 := byte.toNat_lt
  rcases List.mem_cons.mp written with rfl | last
  · exact digits _ (by omega)
  · rw [List.mem_singleton.mp last]
    exact digits _ (by omega)

theorem reads_bytea (bytes : List UInt8) : Reads (['\\', '\\', 'x'] ++ hex bytes) (some (['\\', 'x'] ++ hex bytes)) := by
  have bare : ∀ c ∈ 'x' :: hex bytes, c ∉ special := by
    intro c member
    rcases List.mem_cons.mp member with rfl | digit
    · decide
    · exact hex_bare bytes c digit
  refine ⟨fun separator separates => .covered (whole_bare bare separates), ?_, ?_⟩
  · intro ends
    cases ends
  · have escapes : ['\\', '\\', 'x'] ++ hex bytes ≠ ['\\', 'N'] := by
      intro marked
      cases marked
    have undone : unescape 0 (['\\', '\\', 'x'] ++ hex bytes) = (unescape 0 ('x' :: hex bytes)).map ('\\' :: ·) := rfl
    unfold readField
    rw [if_neg escapes, undone, unescape_bare bare]
    rfl

/-! ## A batch read back -/

section Batch

variable {F N : Type} {python : Python F} (postgres : Postgres python N)

/-- The field is read as a text from which the column's type makes the cell, if it makes one. -/
def Stores (targetType : TargetType) (field : List Char) (cell : Option (Cell F N)) : Prop :=
  ∃ text, Reads field text ∧ readCell postgres targetType text = cell

theorem stores_null (targetType : TargetType) : Stores postgres targetType ['\\', 'N'] (some .null) :=
  ⟨none, reads_null, rfl⟩

theorem stores_number (number : Int) :
    Stores postgres .bigint (decimal number) (if inInt8 number then some (.int8 number) else none) := by
  refine ⟨_, reads_decimal number, ?_⟩
  rw [readCell, postgres.int8In_decimal]
  split <;> rfl

theorem inInt8_toInt (value : Int64) : inInt8 value.toInt = true :=
  Bool.and_eq_true_iff.mpr ⟨decide_eq_true value.le_toInt, decide_eq_true value.toInt_lt⟩

theorem stores_integer (value : Int64) : Stores postgres .bigint (decimal value.toInt) (some (.int8 value.toInt)) := by
  have stored := stores_number postgres value.toInt
  rwa [if_pos (inInt8_toInt value)] at stored

theorem stores_float (value : F) : Stores postgres .doublePrecision (python.repr value) (some (.float8 value)) :=
  ⟨_, reads_bare (python.repr_bare value), congrArg (Option.map Cell.float8) (postgres.float8In_repr value)⟩

theorem stores_bytes (bytes : List UInt8) :
    Stores postgres .bytea (['\\', '\\', 'x'] ++ hex bytes) (some (.bytea bytes)) :=
  ⟨_, reads_bytea bytes, congrArg (Option.map Cell.bytea) (postgres.byteaIn_hex bytes)⟩

theorem stores_text (value : Value F) :
    Stores postgres .text (escaped (bareText python value)) (some (.text (String.ofList (bareText python value)))) := by
  refine ⟨_, reads_escaped _, if_neg ?_⟩
  intro nul
  exact absurd (List.mem_filter.mp nul).2 (by decide)

theorem stores_numeric (value : Value F) : Stores postgres .numeric (escaped (bareText python value))
    ((postgres.numericIn (bareText python value)).map .numeric) :=
  ⟨_, reads_escaped _, rfl⟩

variable {targetType : TargetType} {column : String} {value : Value F} {fields : List (List Char)} {table : Table}
  {rows : List (Row F table)}
variable {field : List Char} {row : Row F table}

theorem encodeCopyValue_spec {table : String}
    (encoded : encodeCopyValue python targetType table column value = .ok field) :
    Stores postgres targetType field (received postgres targetType value) := by
  unfold encodeCopyValue at encoded
  cases targetType with
  | bigint =>
    cases value with
    | null =>
      cases encoded
      exact stores_null postgres _
    | integer value =>
      cases encoded
      exact stores_integer postgres value
    | _ =>
      dsimp only at encoded
      unfold received
      dsimp only
      split at encoded
      · rename_i number found
        cases encoded
        rw [found]
        exact stores_number postgres number
      · cases encoded
  | doublePrecision =>
    cases value with
    | null =>
      cases encoded
      exact stores_null postgres _
    | _ =>
      dsimp only at encoded
      unfold received
      dsimp only
      split at encoded
      · rename_i number found
        cases encoded
        rw [found]
        exact stores_float postgres number
      · cases encoded
  | bytea =>
    cases value with
    | null =>
      cases encoded
      exact stores_null postgres _
    | _ =>
      cases encoded
      exact stores_bytes postgres _
  | text =>
    cases value with
    | null =>
      cases encoded
      exact stores_null postgres _
    | _ =>
      dsimp only at encoded
      rw [← Except.ok.inj encoded]
      exact stores_text postgres _
  | numeric =>
    cases value with
    | null =>
      cases encoded
      exact stores_null postgres _
    | _ =>
      dsimp only at encoded
      rw [← Except.ok.inj encoded]
      exact stores_numeric postgres _

/-- A value that is streamed comes to nothing exactly where the server refuses it. -/
theorem received_eq_none_iff {table : String}
    (encoded : encodeCopyValue python targetType table column value = .ok field) :
    received postgres targetType value = none ↔ ServerRefuses postgres targetType value := by
  unfold encodeCopyValue at encoded
  cases targetType with
  | bigint =>
    cases value with
    | null => simp [received, ServerRefuses]
    | integer value => simp [received, ServerRefuses]
    | _ =>
      dsimp only at encoded
      split at encoded
      · rename_i number found
        simp [received, ServerRefuses, found]
      · cases encoded
  | doublePrecision =>
    cases value with
    | null => simp [received, ServerRefuses]
    | _ =>
      dsimp only at encoded
      split at encoded
      · rename_i number found
        simp [received, ServerRefuses, found]
      · cases encoded
  | bytea => cases value <;> simp [received, ServerRefuses]
  | text => cases value <;> simp [received, ServerRefuses]
  | numeric => cases value <;> simp [received, ServerRefuses]

/-- The fields of a row, joined, are a line of the batch. -/
theorem whole_line (each : ∀ field ∈ fields, ∃ text, Reads field text) (separates : separator ∈ ['\n', '\r']) :
    Whole '\\' separator (['\t'].intercalate fields) := by
  have apart : '\t' ≠ separator := by
    rintro rfl
    exact absurd separates (by decide)
  refine Whole.intercalate (by decide) apart ?_
  intro field member
  obtain ⟨text, reads⟩ := each field member
  exact reads.whole separator (List.mem_cons_of_mem _ separates)

theorem cut_line (some_field : fields ≠ []) (each : ∀ field ∈ fields, ∃ text, Reads field text) :
    cut '\\' '\t' (['\t'].intercalate fields) = fields := by
  refine cut_intercalate (by decide) some_field ?_
  intro field member
  obtain ⟨text, reads⟩ := each field member
  exact reads.whole '\t' List.mem_cons_self

theorem line_ne_marker (some_field : fields ≠ []) (each : ∀ field ∈ fields, ∃ text, Reads field text) :
    ['\t'].intercalate fields ≠ ['\\', '.'] := by
  intro ends
  have parts := cut_line some_field each
  rw [ends] at parts
  have only : fields = [['\\', '.']] := parts.symm
  obtain ⟨text, reads⟩ := each ['\\', '.'] (by rw [only]; exact List.mem_cons_self)
  exact reads.marker rfl

theorem readLines_eq {lines : List (List (List Char))} (some_field : ∀ fields ∈ lines, fields ≠ [])
    (each : ∀ fields ∈ lines, ∀ field ∈ fields, ∃ text, Reads field text) :
    readLines (lines.flatMap lineOf) = some (lines.map fun fields => ['\t'].intercalate fields) := by
  have joined : lines.flatMap lineOf =
      (lines.map fun fields => ['\t'].intercalate fields).flatMap fun line => line ++ ['\n'] := by
    rw [List.flatMap_map]
    rfl
  have carriage : Whole '\\' '\r' (lines.flatMap lineOf) := by
    refine Whole.flatMap ?_
    intro fields member
    refine (whole_line (each fields member) (by decide)).append ?_
    exact .plain (by decide) (by decide) .nil
  have cuts : cut '\\' '\n' (lines.flatMap lineOf) = (lines.map fun fields => ['\t'].intercalate fields) ++ [[]] := by
    rw [joined]
    refine cut_terminated (by decide) ?_
    intro line member
    obtain ⟨fields, among, rfl⟩ := List.mem_map.mp member
    exact whole_line (each fields among) (by decide)
  have single : (cut '\\' '\r' (lines.flatMap lineOf)).length = 1 := congrArg List.length (cut_whole carriage)
  unfold readLines
  dsimp only
  rw [if_pos single, cuts, List.getLast?_concat, if_pos rfl, List.dropLast_concat]
  congr 1
  refine List.takeWhile_eq_self_iff.mpr ?_
  intro line member
  obtain ⟨fields, among, rfl⟩ := List.mem_map.mp member
  exact decide_eq_true (line_ne_marker (some_field fields among) (each fields among))

theorem readFields_eq {columns : List Column} {values : List (Value F)} {table : String}
    (width : values.length = columns.length) (encoded : List.Forall₂ (fun (pair : Column × Value F) field =>
      encodeCopyValue python pair.1.targetType table pair.1.name pair.2 = .ok field) (columns.zip values) fields) :
    fields.length = columns.length ∧ (∀ field ∈ fields, ∃ text, Reads field text) ∧
      ((columns.zip fields).mapM fun (column, field) => (readField field).bind (readCell postgres column.targetType)) =
        (columns.zip values).mapM fun (column, value) => received postgres column.targetType value := by
  induction columns generalizing values fields with
  | nil =>
    cases encoded
    exact ⟨rfl, fun _ member => absurd member List.not_mem_nil, rfl⟩
  | cons column others ih =>
    cases values with
    | nil => cases width
    | cons value rest =>
      cases encoded with
      | @cons _ field _ tail first later =>
        obtain ⟨lengths, each, same⟩ := ih (Nat.succ.inj width) later
        obtain ⟨text, reads, stored⟩ := encodeCopyValue_spec postgres first
        refine ⟨congrArg Nat.succ lengths, ?_, ?_⟩
        · intro other member
          rcases List.mem_cons.mp member with rfl | further
          · exact ⟨text, reads⟩
          · exact each other further
        · have one : (readField field).bind (readCell postgres column.targetType) =
              received postgres column.targetType value := by
            rw [reads.read, Option.bind_some, stored]
          rw [List.zip_cons_cons, List.zip_cons_cons, List.mapM_cons, List.mapM_cons, same]
          dsimp only
          rw [one]

theorem readRow_eq (encoded : encodeRow python table row = .ok fields) :
    fields ≠ [] ∧ (∀ field ∈ fields, ∃ text, Reads field text) ∧
      readRow postgres table.columns (['\t'].intercalate fields) = receivedRow postgres table row := by
  obtain ⟨lengths, each, same⟩ := readFields_eq postgres row.width (Execution.forall₂_of_mapM encoded)
  have some_field : fields ≠ [] := by
    rintro rfl
    exact table.some_column (List.length_eq_zero_iff.mp lengths.symm)
  refine ⟨some_field, each, ?_⟩
  unfold readRow receivedRow
  dsimp only
  rw [cut_line some_field each, if_pos lengths, same]

theorem copyFrom_copyChunk (copied : copyChunk python table rows = .ok text) :
    copyFrom postgres table text = rows.mapM (receivedRow postgres table) := by
  obtain ⟨lines, encoded, whole⟩ := Execution.bind_eq_ok copied
  cases whole
  have each := Execution.forall₂_of_mapM encoded
  have reads : ∀ fields ∈ lines, fields ≠ [] ∧ ∀ field ∈ fields, ∃ text, Reads field text := by
    intro fields member
    obtain ⟨row, -, made⟩ := Execution.exists_of_mem_mapM encoded member
    obtain ⟨some_field, read, -⟩ := readRow_eq postgres made
    exact ⟨some_field, read⟩
  unfold copyFrom
  rw [readLines_eq (fun fields member => (reads fields member).1) fun fields member => (reads fields member).2,
    Option.bind_some]
  clear copied encoded reads
  induction each with
  | nil => rfl
  | @cons row fields rest others made _ ih =>
    obtain ⟨-, -, same⟩ := readRow_eq postgres made
    rw [List.map_cons, List.mapM_cons, List.mapM_cons, same, ih]

theorem copyFrom_eq_none_iff (copied : copyChunk python table rows = .ok text) :
    copyFrom postgres table text = none ↔ ∃ row ∈ rows, ∃ pair ∈ table.columns.zip row.values,
      ServerRefuses postgres pair.1.targetType pair.2 := by
  rw [copyFrom_copyChunk postgres copied, Execution.mapM_eq_none_iff]
  obtain ⟨lines, encoded, -⟩ := Execution.bind_eq_ok copied
  have refused : ∀ row ∈ rows, receivedRow postgres table row = none ↔
      ∃ pair ∈ table.columns.zip row.values, ServerRefuses postgres pair.1.targetType pair.2 := by
    intro row member
    obtain ⟨fields, -, made⟩ := Execution.exists_right_of_forall₂ (Execution.forall₂_of_mapM encoded) member
    rw [receivedRow, Execution.mapM_eq_none_iff]
    refine exists_congr fun pair => and_congr_right fun among => ?_
    obtain ⟨field, -, written⟩ := Execution.exists_right_of_forall₂ (Execution.forall₂_of_mapM made) among
    exact received_eq_none_iff postgres written
  exact exists_congr fun row => and_congr_right (refused row)

/-! ## Values of their column's own kind -/

/-- The value less the NULs of a text. -/
def unchanged : Value F → Cell F N
  | .null => .null
  | .integer value => .int8 value.toInt
  | .real value => .float8 value
  | .text value => .text (String.ofList (value.toList.filter (· ≠ Char.ofNat 0)))
  | .blob bytes => .bytea bytes

/-- The column is of the value's kind; a NULL is of every kind. -/
def OwnKind : TargetType → Value F → Prop
  | _, .null => True
  | .bigint, .integer _ => True
  | .doublePrecision, .real _ => True
  | .text, .text _ => True
  | .bytea, .blob _ => True
  | _, _ => False

def OwnKinds (table : Table) (row : Row F table) : Prop :=
  ∀ pair ∈ table.columns.zip row.values, OwnKind pair.1.targetType pair.2

/-- Its column's type refuses the value: `int` or `float` does. -/
def Refuses (python : Python F) : TargetType → Value F → Prop
  | .bigint, value => pyInt python (Text.stripChars (str python value)) = none
  | .doublePrecision, value => pyFloat python value = none
  | _, _ => False

theorem received_of_ownKind (own : OwnKind targetType value) :
    received postgres targetType value = some (unchanged value) := by
  cases value with
  | null => cases targetType <;> rfl
  | _ =>
    cases targetType
    all_goals first
      | exact absurd own id
      | rfl

theorem encodeCopyValue_of_ownKind (own : OwnKind targetType value) (table column : String) :
    ∃ field, encodeCopyValue python targetType table column value = .ok field := by
  cases value with
  | null => exact ⟨_, rfl⟩
  | _ =>
    cases targetType
    all_goals first
      | exact absurd own id
      | exact ⟨_, rfl⟩

/-- Only a value its column's type refuses ends the batch, and the error names it. -/
theorem encodeCopyValue_error {table : String} {failure : MigrationError F}
    (refused : encodeCopyValue python targetType table column value = .error failure) :
    Refuses python targetType value ∧ failure = ⟨table, column, value⟩ := by
  unfold encodeCopyValue at refused
  cases targetType with
  | bigint =>
    cases value with
    | null => cases refused
    | integer value => cases refused
    | _ =>
      dsimp only at refused
      split at refused
      · cases refused
      · rename_i none_read
        cases refused
        exact ⟨none_read, rfl⟩
  | doublePrecision =>
    cases value with
    | null => cases refused
    | _ =>
      dsimp only at refused
      split at refused
      · cases refused
      · rename_i none_read
        cases refused
        exact ⟨none_read, rfl⟩
  | bytea => cases value <;> cases refused
  | text => cases value <;> cases refused
  | numeric => cases value <;> cases refused

theorem receivedRow_of_ownKinds (own : OwnKinds table row) :
    receivedRow postgres table row = some (row.values.map unchanged) := by
  obtain ⟨values, width⟩ := row
  unfold OwnKinds at own
  unfold receivedRow
  dsimp only at own ⊢
  generalize table.columns = columns at own width
  induction columns generalizing values with
  | nil =>
    rw [List.length_eq_zero_iff.mp width]
    rfl
  | cons column others ih =>
    cases values with
    | nil => cases width
    | cons value rest =>
      rw [List.zip_cons_cons] at own ⊢
      have first := received_of_ownKind postgres (own _ List.mem_cons_self)
      have later := ih rest (fun pair member => own pair (List.mem_cons_of_mem _ member)) (Nat.succ.inj width)
      rw [List.mapM_cons, later]
      dsimp only at first ⊢
      rw [first]
      rfl

theorem copyChunk_of_ownKinds (python : Python F) (own : ∀ row ∈ rows, OwnKinds table row) :
    ∃ text, copyChunk python table rows = .ok text := by
  obtain ⟨lines, encoded⟩ : ∃ lines, rows.mapM (encodeRow python table) = .ok lines := by
    refine Execution.mapM_ok_of_forall ?_
    intro row member
    refine Execution.mapM_ok_of_forall ?_
    intro pair among
    exact encodeCopyValue_of_ownKind (own row member pair among) table.name pair.1.name
  refine ⟨lines.flatMap lineOf, ?_⟩
  unfold copyChunk
  rw [encoded]
  rfl

theorem receivedRows_of_ownKinds (own : ∀ row ∈ rows, OwnKinds table row) :
    rows.mapM (receivedRow postgres table) = some (rows.map fun row => row.values.map unchanged) := by
  induction rows with
  | nil => rfl
  | cons row rest ih =>
    rw [List.mapM_cons, receivedRow_of_ownKinds postgres (own row List.mem_cons_self),
      ih fun other member => own other (List.mem_cons_of_mem _ member)]
    rfl

/-- What is streamed is read back row by row as the values in their columns' types, unless the server refuses one of
them; values of their columns' own kinds come through unchanged but for NULs; and what is not streamed has a value its
column's type refuses. -/
theorem copyText_round_trip (table : Table) (rows : List (Row F table)) :
    (∀ text, copyChunk python table rows = .ok text →
      copyFrom postgres table text = rows.mapM (receivedRow postgres table) ∧
        (copyFrom postgres table text = none ↔ ∃ row ∈ rows, ∃ pair ∈ table.columns.zip row.values,
          ServerRefuses postgres pair.1.targetType pair.2)) ∧
      ((∀ row ∈ rows, OwnKinds table row) → ∃ text, copyChunk python table rows = .ok text ∧
        copyFrom postgres table text = some (rows.map fun row => row.values.map unchanged)) ∧
      ∀ failure, copyChunk python table rows = .error failure → ∃ row ∈ rows, ∃ pair ∈ table.columns.zip row.values,
        Refuses python pair.1.targetType pair.2 ∧ failure = ⟨table.name, pair.1.name, pair.2⟩ := by
  refine ⟨fun text copied => ⟨copyFrom_copyChunk postgres copied, copyFrom_eq_none_iff postgres copied⟩, ?_, ?_⟩
  · intro own
    obtain ⟨text, copied⟩ := copyChunk_of_ownKinds python own
    exact ⟨text, copied, (copyFrom_copyChunk postgres copied).trans (receivedRows_of_ownKinds postgres own)⟩
  · intro failure refused
    have encoding : rows.mapM (encodeRow python table) = .error failure := by
      cases encoded : rows.mapM (encodeRow python table) with
      | error other =>
          unfold copyChunk at refused
          rw [encoded] at refused
          cases refused
          rfl
      | ok lines =>
          unfold copyChunk at refused
          rw [encoded] at refused
          cases refused
    obtain ⟨row, member, in_row⟩ := Execution.mapM_error encoding
    obtain ⟨pair, among, at_value⟩ := Execution.mapM_error in_row
    exact ⟨row, member, pair, among, encodeCopyValue_error at_value⟩

end Batch

/-! ## A blob in a text column -/

/-- A float spelt as `repr` spells it. -/
def readFloat (text : List Char) : Option FloatText :=
  if shape : (∀ c ∈ text, isNumberChar c = true) ∧ ∃ c ∈ text, c = '.' ∨ c = 'e' then
    some ⟨String.ofList text, by rw [String.toList_ofList]; exact shape.1, by rw [String.toList_ofList]; exact shape.2⟩
  else none

theorem readFloat_text (value : FloatText) : readFloat value.text.toList = some value := by
  unfold readFloat
  rw [dif_pos ⟨value.chars, value.fraction⟩]
  congr 1
  exact FloatText.ext String.ofList_toList

def wholeFloat (value : Int) : FloatText where
  text := String.ofList (decimal value ++ ['.', '0'])
  chars := by
    rw [String.toList_ofList]
    intro c member
    rcases List.mem_append.mp member with digit | last
    · exact Json.isNumberChar_of_int digit
    · rcases List.mem_cons.mp last with rfl | zero
      · decide
      · rw [List.mem_singleton.mp zero]
        decide
  fraction := by
    rw [String.toList_ofList]
    exact ⟨'.', List.mem_append_right _ List.mem_cons_self, .inl rfl⟩

theorem number_bare (number : isNumberChar c = true) : c ∉ special := by
  intro among
  simp only [special, List.mem_cons, List.not_mem_nil, or_false] at among
  rcases among with rfl | rfl | rfl | rfl | rfl
  all_goals exact absurd number (by decide)

/-- An interpreter whose floats are their `repr`s. -/
def plainPython : Python FloatText where
  digit c := if c.isDigit then some (c.toNat - 48) else none
  repr value := value.text.toList
  ofInt := wholeFloat
  ofText := readFloat
  ofBytes bytes := readFloat (bytes.map fun byte => Char.ofNat byte.toNat)
  repr_bare value c member := number_bare (value.chars c member)

/-- Pairs of digits. -/
def hexBytes : List Char → Option (List UInt8)
  | [] => some []
  | [_] => none
  | high :: low :: rest => do
      let first ← hexValue high
      let second ← hexValue low
      let bytes ← hexBytes rest
      return UInt8.ofNat (first * 16 + second) :: bytes

theorem hexBytes_hex (bytes : List UInt8) : hexBytes (hex bytes) = some bytes := by
  have digits : ∀ n < 16, hexValue (hexDigit n) = some n := by decide
  induction bytes with
  | nil => rfl
  | cons byte rest ih =>
    have bound : byte.toNat < 256 := byte.toNat_lt
    have same : UInt8.ofNat (byte.toNat / 16 * 16 + byte.toNat % 16) = byte := by
      rw [Nat.div_add_mod', UInt8.ofNat_toNat]
    have written : hex (byte :: rest) = hexDigit (byte.toNat / 16) :: hexDigit (byte.toNat % 16) :: hex rest := rfl
    rw [written, hexBytes, digits _ (by omega), digits _ (by omega), ih]
    exact congrArg (fun first => some (first :: rest)) same

/-- A server that reads the plain forms. -/
def plainPostgres : Postgres plainPython Int where
  int8In text := ((String.ofList text).toInt?).filter inInt8
  float8In := readFloat
  byteaIn text :=
    match text with
    | '\\' :: 'x' :: digits => hexBytes digits
    | _ => none
  numericIn text := (String.ofList text).toInt?
  int8In_decimal value := by
    unfold decimal
    rw [String.ofList_toList, Int.toInt?_repr, Option.filter_some]
  float8In_repr := readFloat_text
  byteaIn_hex := hexBytes_hex

def notes : Table := ⟨"notes", [⟨"body", .text⟩], List.cons_ne_nil _ _⟩

def binaryNote : Row FloatText notes := ⟨[.blob [0xFF]], rfl⟩

/-- The byte comes back as the replacement character. -/
theorem binary_note_changes : ¬∀ (table : Table) (rows : List (Row FloatText table)),
    ∃ text, copyChunk plainPython table rows = .ok text ∧
      copyFrom plainPostgres table text = some (rows.map fun row => row.values.map unchanged) := by
  intro kept
  obtain ⟨text, copied, read⟩ := kept notes [binaryNote]
  rw [copyFrom_copyChunk plainPostgres copied] at read
  cases read

end DbaBrain.Db.CopyText
