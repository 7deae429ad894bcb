import DbaBrain.Foundation.Dict
import DbaBrain.Foundation.Json
import DbaBrain.Foundation.Selection

/-!
# Equality of JSON values

Python's `==`: numbers compare by value, whichever way they are written, and
objects whatever the order of their keys.
-/

namespace DbaBrain.Foundation

open DbaBrain.Foundation.Selection

/-- The whole number nearest to one that has 53 bits, an even one of two. -/
def nearestDouble (n : Nat) : Nat :=
  let unit := 2 ^ (Nat.log2 n + 1 - 53)
  let below := n / unit
  let rest := 2 * (n % unit)
  if rest < unit ∨ (rest = unit ∧ below % 2 = 0) then below * unit else (below + 1) * unit

def digitsValue (digits : List Char) : Nat := digits.foldl (fun value c => 10 * value + (c.toNat - 48)) 0

def FloatText.integer? (float : FloatText) : Option Int :=
  let chars := float.text.toList
  let negative := chars.head? = some '-'
  let (mantissa, exponent) := (if negative then chars.tail else chars).span fun c => c ≠ 'e'
  let (whole, point) := mantissa.span fun c => c ≠ '.'
  let fraction := point.tail
  let value : Option Nat :=
    match exponent.tail with
    | [] => if fraction.all fun c => c = '0' then some (digitsValue whole) else none
    | '-' :: _ => none
    | sign :: digits =>
        let scale := digitsValue (if sign = '+' then digits else sign :: digits)
        some (nearestDouble (digitsValue (whole ++ fraction) * 10 ^ (scale - fraction.length)))
  value.map fun n => if negative then -n else n

namespace Json

mutual

/-- One form for the values that compare equal. -/
def canonical : Json → Json
  | .bool value => .int (if value then 1 else 0)
  | .float value =>
      match value.integer? with
      | some whole => .int whole
      | none => .float value
  | .array items => .array (canonicalItems items)
  | .object entries => .object (sortedBy Prod.fst (canonicalEntries entries))
  | value => value

def canonicalItems : List Json → List Json
  | [] => []
  | item :: rest => canonical item :: canonicalItems rest

def canonicalEntries : List (String × Json) → List (String × Json)
  | [] => []
  | (key, value) :: rest => (key, canonical value) :: canonicalEntries rest

end

/-- `==`. -/
def equal (first second : Json) : Bool := canonical first = canonical second

theorem canonicalEntries_eq_map (entries : List (String × Json)) :
    canonicalEntries entries = entries.map fun entry => (entry.1, canonical entry.2) := by
  induction entries with
  | nil => rfl
  | cons entry rest ih => rw [canonicalEntries, ih, List.map_cons]

/-- Two mappings with the same values are equal objects. -/
theorem equal_of_same {first second : Dict String Json} (same : Dict.Same first second) :
    equal (.object first.entries) (.object second.entries) = true := by
  have perm : first.entries.Perm second.entries := by
    refine (List.perm_ext_iff_of_nodup first.nodup.of_map second.nodup.of_map).mpr fun entry => ?_
    rw [← Dict.get?_eq_some_iff, ← Dict.get?_eq_some_iff, same]
  rw [equal, decide_eq_true_eq, canonical, canonical, canonicalEntries_eq_map, canonicalEntries_eq_map]
  refine congrArg Json.object (sortedBy_eq_of_perm (perm.map _) ?_)
  rw [List.map_map]
  exact first.nodup

end Json

end DbaBrain.Foundation
