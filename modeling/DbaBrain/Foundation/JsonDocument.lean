import DbaBrain.Foundation.CodePoints
import DbaBrain.Foundation.Dict
import DbaBrain.Foundation.NumberText

/-!
# JSON documents: reading and writing

`json.loads` reads a text, `json.dumps` writes a document in one line or with an
indent.  What is written is read back, as long as no string of the document holds
half a surrogate pair: such a half has no bytes.
-/

namespace DbaBrain.Foundation

/-- Floating-point numbers that are finite: the number each is, the one nearest to a text (none where
that is out of their range) and the text `repr` gives, which is read as the number it came from. -/
structure Floats where
  Value : Type
  number : Value → ℚ
  nearest : List Char → Option Value
  repr : Value → List Char
  repr_read : ∀ value, ∃ number, NumberText.read (repr value) = some (number, []) ∧ number.isFloat = true
  nearest_repr : ∀ value, nearest (repr value) = some value

/-! ## Documents -/

inductive Document (φ : Type)
  | null
  | bool (value : Bool)
  | int (value : Int)
  | float (value : φ)
  | infinite (negative : Bool)
  | nan
  | string (value : Str)
  | array (items : List (Document φ))
  | object (entries : List (Str × Document φ))

namespace Document

variable {floats : Floats}

def lookup {φ : Type} (entries : List (Str × Document φ)) (key : Str) : Option (Document φ) :=
  (entries.find? fun entry => entry.1 = key).map Prod.snd

/-- `dict.get`. -/
def get? {φ : Type} (entries : List (Str × Document φ)) (key : String) : Option (Document φ) := lookup entries (str key)

/-! ## Writing -/

/-- `indent` is what one level is set in by; without one the text is a single line. -/
structure Style where
  indent : Option (List Char)
  ensureAscii : Bool

namespace Style

/-- What stands before a value on a line of its own. -/
def line (style : Style) (level : Nat) : Str :=
  match style.indent with
  | none => []
  | some unit => .char '\n' :: ((List.replicate level unit).flatten.map .char)

/-- What stands between a comma and the next value. -/
def gap (style : Style) (level : Nat) : Str :=
  match style.indent with
  | none => [.char ' ']
  | some _ => style.line level

end Style

def writePoint (ensureAscii : Bool) : CodePoint → Str
  | .char c => (Json.escapeOf ensureAscii c).text.map .char
  | .surrogate offset =>
      if ensureAscii then ('\\' :: 'u' :: Json.hexFour (CodePoint.surrogate offset).number).map .char
      else [.surrogate offset]

def writeString (ensureAscii : Bool) (text : Str) : Str :=
  .char '"' :: (text.flatMap (writePoint ensureAscii) ++ [.char '"'])

mutual

def write (style : Style) (level : Nat) : Document floats.Value → Str
  | .null => str "null"
  | .bool true => str "true"
  | .bool false => str "false"
  | .int value => (integerText value).map .char
  | .float value => (floats.repr value).map .char
  | .infinite false => str "Infinity"
  | .infinite true => str "-Infinity"
  | .nan => str "NaN"
  | .string value => writeString style.ensureAscii value
  | .array [] => str "[]"
  | .array (first :: rest) =>
      .char '[' :: (style.line (level + 1) ++ (write style (level + 1) first ++ writeItems style level rest))
  | .object [] => str "{}"
  | .object ((key, value) :: rest) =>
      .char '{' :: (style.line (level + 1) ++ (writeString style.ensureAscii key ++
        .char ':' :: .char ' ' :: (write style (level + 1) value ++ writeEntries style level rest)))

def writeItems (style : Style) (level : Nat) : List (Document floats.Value) → Str
  | [] => style.line level ++ [.char ']']
  | item :: rest =>
      .char ',' :: (style.gap (level + 1) ++ (write style (level + 1) item ++ writeItems style level rest))

def writeEntries (style : Style) (level : Nat) : List (Str × Document floats.Value) → Str
  | [] => style.line level ++ [.char '}']
  | (key, value) :: rest =>
      .char ',' :: (style.gap (level + 1) ++ (writeString style.ensureAscii key ++
        .char ':' :: .char ' ' :: (write style (level + 1) value ++ writeEntries style level rest)))

end

/-- `json.dumps`. -/
def dumps (style : Style) (document : Document floats.Value) : Str := write style 0 document

/-! ## Reading -/

def isBlank (c : Char) : Bool := c ∈ [' ', '\t', '\n', '\r']

def skip (text : List Char) : List Char := text.dropWhile isBlank

def hexValue (c : Char) : Option Nat :=
  if '0' ≤ c ∧ c ≤ '9' then some (c.toNat - 48)
  else if 'a' ≤ c ∧ c ≤ 'f' then some (c.toNat - 87)
  else if 'A' ≤ c ∧ c ≤ 'F' then some (c.toNat - 55)
  else none

/-- The number four hexadecimal digits are. -/
def hexNumber (a b c d : Char) : Option Nat := do
  return (← hexValue a) * 4096 + (← hexValue b) * 256 + (← hexValue c) * 16 + (← hexValue d)

def pointOf (number : Nat) : CodePoint :=
  if half : 55296 ≤ number ∧ number < 57344 then .surrogate ⟨number - 55296, by omega⟩ else .char (Char.ofNat number)

/-- The character a backslash and a letter stand for. -/
def unescape (c : Char) : Option Char :=
  if c = '"' ∨ c = '\\' ∨ c = '/' then some c
  else if c = 'n' then some '\n'
  else if c = 'r' then some '\r'
  else if c = 't' then some '\t'
  else if c = 'f' then some '\x0c'
  else if c = 'b' then some '\x08'
  else none

/-- A string's code points up to its closing quote, each escape one of them, and what follows. -/
def readPoints : List Char → Option (Str × List Char)
  | [] => none
  | '"' :: rest => some ([], rest)
  | '\\' :: 'u' :: a :: b :: c :: d :: rest => do
      let number ← hexNumber a b c d
      let read ← readPoints rest
      return (pointOf number :: read.1, read.2)
  | '\\' :: letter :: rest => do
      let c ← unescape letter
      let read ← readPoints rest
      return (.char c :: read.1, read.2)
  | c :: rest =>
      if c.toNat < 32 ∨ c = '\\' then none
      else (readPoints rest).map fun read => (.char c :: read.1, read.2)

/-- Two escapes that are the halves of a pair are one character. -/
def joinPairs : Str → Str
  | .surrogate high :: .surrogate low :: rest =>
      if high.val < 1024 ∧ 1024 ≤ low.val then
        .char (Char.ofNat (65536 + high.val * 1024 + (low.val - 1024))) :: joinPairs rest
      else .surrogate high :: joinPairs (.surrogate low :: rest)
  | point :: rest => point :: joinPairs rest
  | [] => []

/-- The string behind an opening quote. -/
def readString (text : List Char) : Option (Str × List Char) :=
  (readPoints text).map fun read => (joinPairs read.1, read.2)

section Values

variable (floats)

def ofNumber (number : NumberText) : Document floats.Value :=
  if number.isFloat then
    match floats.nearest number.chars with
    | some value => .float value
    | none => .infinite (number.whole.head? = some '-')
  else .int number.integer

def readLiteral : List Char → Option (Document floats.Value × List Char)
  | 'n' :: 'u' :: 'l' :: 'l' :: rest => some (.null, rest)
  | 't' :: 'r' :: 'u' :: 'e' :: rest => some (.bool true, rest)
  | 'f' :: 'a' :: 'l' :: 's' :: 'e' :: rest => some (.bool false, rest)
  | 'N' :: 'a' :: 'N' :: rest => some (.nan, rest)
  | 'I' :: 'n' :: 'f' :: 'i' :: 'n' :: 'i' :: 't' :: 'y' :: rest => some (.infinite false, rest)
  | '-' :: 'I' :: 'n' :: 'f' :: 'i' :: 'n' :: 'i' :: 't' :: 'y' :: rest => some (.infinite true, rest)
  | text => (NumberText.read text).map fun read => (ofNumber floats read.1, read.2)

mutual

/-- The value a text begins with, and what follows it. -/
def readValue : Nat → List Char → Option (Document floats.Value × List Char)
  | 0, _ => none
  | fuel + 1, text =>
      match text with
      | '"' :: rest => (readString rest).map fun read => (.string read.1, read.2)
      | '[' :: rest =>
          match skip rest with
          | ']' :: after => some (.array [], after)
          | body => (readItems fuel body).map fun read => (.array read.1, read.2)
      | '{' :: rest =>
          match skip rest with
          | '}' :: after => some (.object [], after)
          | body => (readEntries fuel body).map fun read => (.object (Dict.empty.update read.1).entries, read.2)
      | _ => readLiteral floats text

/-- The items from one on, through the closing bracket. -/
def readItems : Nat → List Char → Option (List (Document floats.Value) × List Char)
  | 0, _ => none
  | fuel + 1, text => do
      let item ← readValue fuel text
      match skip item.2 with
      | ',' :: rest =>
          let others ← readItems fuel (skip rest)
          return (item.1 :: others.1, others.2)
      | ']' :: after => return ([item.1], after)
      | _ => none

/-- The entries from one on, through the closing brace. -/
def readEntries : Nat → List Char → Option (List (Str × Document floats.Value) × List Char)
  | 0, _ => none
  | fuel + 1, text =>
      match text with
      | '"' :: rest => do
          let key ← readString rest
          match skip key.2 with
          | ':' :: written =>
              let value ← readValue fuel (skip written)
              match skip value.2 with
              | ',' :: more =>
                  let others ← readEntries fuel (skip more)
                  return ((key.1, value.1) :: others.1, others.2)
              | '}' :: after => return ([(key.1, value.1)], after)
              | _ => none
          | _ => none
      | _ => none

end

/-- `json.loads`, none where it raises.  A value within a value, and the next beside it, stand behind a
character each, so the fuel covers every text. -/
def loads (text : String) : Option (Document floats.Value) :=
  if text.toList.head? = some mark then none
  else
    match readValue floats (2 * text.toList.length + 2) (skip text.toList) with
    | some (document, rest) => if skip rest = [] then some document else none
    | none => none

end Values

/-! ## Equality -/

def number? : Document floats.Value → Option ℚ
  | .bool value => some (if value then 1 else 0)
  | .int value => some value
  | .float value => some (floats.number value)
  | _ => none

mutual

/-- How two values inside a list or a mapping compare: the reader hands out one `NaN`, and that is itself. -/
def same : Document floats.Value → Document floats.Value → Bool
  | .null, .null => true
  | .nan, .nan => true
  | .infinite first, .infinite second => first = second
  | .string first, .string second => first = second
  | .array first, .array second => sameItems first second
  | .object first, .object second => first.length = second.length && sameEntries first second
  | first, second =>
      match number? first, number? second with
      | some one, some other => one = other
      | _, _ => false

def sameItems : List (Document floats.Value) → List (Document floats.Value) → Bool
  | [], [] => true
  | first :: rest, second :: others => same first second && sameItems rest others
  | _, _ => false

def sameEntries : List (Str × Document floats.Value) → List (Str × Document floats.Value) → Bool
  | [], _ => true
  | (key, value) :: rest, held =>
      (match lookup held key with
        | some other => same value other
        | none => false) && sameEntries rest held

end

/-- `==`. -/
def equal : Document floats.Value → Document floats.Value → Bool
  | .nan, .nan => false
  | first, second => same first second

end Document

end DbaBrain.Foundation
