import DbaBrain.Foundation.Json
import DbaBrain.Foundation.Text

/-!
# JSON values as Python reads them

Truth, `str` and `int` of a value, and a JSON object as a mapping.  What the
interpreter alone knows, the text of a float or of a container and the case of
letters beyond ASCII, is a parameter.
-/

namespace DbaBrain.Foundation.PyValues

open DbaBrain.Foundation.Text

/-- `bool(value)`. -/
def truthy : Json → Bool
  | .null => false
  | .bool value => value
  | .int value => value ≠ 0
  | .float value => value.text ∉ ["0.0", "-0.0"]
  | .string value => value ≠ ""
  | .array items => !items.isEmpty
  | .object entries => !entries.isEmpty

/-- What `int(value)` raises: a `TypeError` or `ValueError`, or an infinity's `OverflowError`. -/
inductive IntError
  | refused
  | overflow
  deriving DecidableEq

def asciiUpper (text : String) : String := String.ofList (text.toList.map Char.toUpper)

def isAscii (text : String) : Bool := text.toList.all fun c => c.toNat < 128

/-- The interpreter's own: how a container prints, what a float or a text is as an integer, and the case of letters. -/
structure Python where
  repr : Json → String
  intOfFloat : FloatText → Except IntError Int
  intOfText : String → Option Int
  upper : String → String
  lower : String → String
  upper_ascii : ∀ text, isAscii text = true → upper text = asciiUpper text
  lower_ascii : ∀ text, isAscii text = true → lower text = asciiLower text

namespace Python

variable (python : Python)

/-- `str(value)`. -/
def str : Json → String
  | .null => "None"
  | .bool true => "True"
  | .bool false => "False"
  | .int value => value.repr
  | .float value => value.text
  | .string value => value
  | value => python.repr value

/-- `int(value)`. -/
def int : Json → Except IntError Int
  | .bool value => .ok (if value then 1 else 0)
  | .int value => .ok value
  | .float value => python.intOfFloat value
  | .string value =>
      match python.intOfText value with
      | none => .error .refused
      | some number => .ok number
  | _ => .error .refused

end Python

/-! ## Objects -/

/-- A JSON object's entries. -/
abbrev Record := List (String × Json)

/-- `record.get(name)`. -/
def get (record : Record) (name : String) : Json :=
  ((record.find? fun entry => entry.1 = name).map Prod.snd).getD .null

/-- `name in record`. -/
def has (record : Record) (name : String) : Bool := record.any fun entry => entry.1 = name

/-- `record[name] = value`. -/
def set : Record → String → Json → Record
  | [], name, value => [(name, value)]
  | (key, held) :: rest, name, value =>
      if key = name then (name, value) :: rest else (key, held) :: set rest name value

/-- `record.pop(name, None)`, for the record it leaves. -/
def remove (record : Record) (name : String) : Record := record.filter fun entry => entry.1 ≠ name

theorem get_cons (key : String) (value : Json) (rest : Record) (name : String) :
    get ((key, value) :: rest) name = if key = name then value else get rest name := by
  unfold get
  by_cases same : key = name
  · simp [same]
  · simp [same]

@[simp]
theorem get_set (record : Record) (name : String) (value : Json) (other : String) :
    get (set record name value) other = if other = name then value else get record other := by
  induction record with
  | nil =>
    rw [set, get_cons]
    by_cases same : name = other
    · rw [if_pos same, if_pos same.symm]
    · rw [if_neg same, if_neg (Ne.symm same)]
  | cons entry rest ih =>
    obtain ⟨key, held⟩ := entry
    rw [set]
    by_cases here : key = name
    · rw [if_pos here, get_cons, get_cons, here]
      by_cases same : name = other
      · rw [if_pos same, if_pos same.symm]
      · rw [if_neg same, if_neg (Ne.symm same), if_neg same]
    · rw [if_neg here, get_cons, get_cons, ih]
      by_cases same : key = other
      · rw [if_pos same, if_pos same, if_neg fun eq => here (same.trans eq)]
      · rw [if_neg same, if_neg same]

/-- Python restricted to ASCII letters, where a float and a text are no integers. -/
def asciiPython : Python where
  repr := fun _ => ""
  intOfFloat := fun _ => .error .refused
  intOfText := fun _ => none
  upper := asciiUpper
  lower := asciiLower
  upper_ascii := fun _ _ => rfl
  lower_ascii := fun _ _ => rfl

end DbaBrain.Foundation.PyValues
