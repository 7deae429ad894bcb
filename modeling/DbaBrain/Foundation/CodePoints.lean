import DbaBrain.Foundation.Delimited
import DbaBrain.Foundation.Text

/-!
# Strings of code points

Python's `str`: any sequence of code points, the halves of a surrogate pair
among them, and its UTF-8 encoding, which has no bytes for such a half.
-/

namespace DbaBrain.Foundation

inductive CodePoint
  | char (c : Char)
  | surrogate (offset : Fin 2048)
  deriving DecidableEq

namespace CodePoint

def number : CodePoint → Nat
  | .char c => c.toNat
  | .surrogate offset => 55296 + offset.val

/-- The character it is, where it is one. -/
def char? : CodePoint → Option Char
  | .char c => some c
  | .surrogate _ => none

def isSpace : CodePoint → Bool
  | .char c => Text.isSpace c
  | .surrogate _ => false

def isAscii (point : CodePoint) : Bool := point.number < 128

@[simp]
theorem isSpace_char (c : Char) : (char c).isSpace = Text.isSpace c := rfl

end CodePoint

abbrev Str := List CodePoint

abbrev Bytes := List UInt8

def str (text : String) : Str := text.toList.map .char

/-- `text.encode("utf-8")`. -/
def utf8 (text : String) : Bytes := text.toByteArray.data.toList

/-- `raw.decode("utf-8")`. -/
def utf8? (raw : Bytes) : Option String := String.fromUTF8? ⟨raw.toArray⟩

/-- The byte order mark's character and its bytes. -/
def mark : Char := Char.ofNat 65279

def markBytes : Bytes := [239, 187, 191]

/-- `raw.decode("utf-8-sig")`: one byte order mark in front is left out. -/
def utf8Sig? (raw : Bytes) : Option String :=
  (utf8? raw).map fun text => if text.toList.head? = some mark then String.ofList text.toList.tail else text

namespace Str

/-- The text itself, where every code point of it is a character: what `encode` takes. -/
def text? (value : Str) : Option String := (value.mapM CodePoint.char?).map String.ofList

@[simp]
theorem mapM_char?_map (text : List Char) : (text.map CodePoint.char).mapM CodePoint.char? = some text := by
  rw [List.mapM_map]
  induction text with
  | nil => rfl
  | cons c rest ih => simp [CodePoint.char?, ih]

@[simp]
theorem text?_str (text : String) : text? (str text) = some text := by
  rw [text?, str, mapM_char?_map, Option.map_some, String.ofList_toList]

def strip (value : Str) : Str := ((value.dropWhile CodePoint.isSpace).reverse.dropWhile CodePoint.isSpace).reverse

/-- `value.replace(old, new)` of one character. -/
def replace (old new : Char) (value : Str) : Str := value.map fun point => if point = .char old then .char new else point

/-- A text with no blank at its ends is its own strip. -/
theorem strip_eq_self_iff {value : Str} :
    strip value = value ↔
      (∀ point ∈ value.head?, point.isSpace = false) ∧ ∀ point ∈ value.getLast?, point.isSpace = false := by
  constructor
  · intro same
    constructor
    · intro point first
      cases value with
      | nil => simp at first
      | cons head rest =>
        obtain rfl := Option.some.inj first
        by_contra blank
        have shorter : (strip (head :: rest)).length ≤ rest.length := by
          have blank : head.isSpace = true := by simpa using blank
          rw [strip, List.dropWhile_cons, if_pos blank, List.length_reverse]
          exact ((List.dropWhile_sublist _).length_le).trans
            (by simpa using (List.dropWhile_sublist CodePoint.isSpace (l := rest)).length_le)
        rw [same, List.length_cons] at shorter
        omega
    · intro point last
      rw [← same, strip, List.getLast?_reverse] at last
      have found := List.head?_dropWhile_not CodePoint.isSpace (value.dropWhile CodePoint.isSpace).reverse
      rw [last] at found
      simpa using found
  · rintro ⟨first, last⟩
    have front : value.dropWhile CodePoint.isSpace = value := by
      cases value with
      | nil => rfl
      | cons head rest => simp [first head rfl]
    have back : value.reverse.dropWhile CodePoint.isSpace = value.reverse := by
      cases flipped : value.reverse with
      | nil => rfl
      | cons head rest =>
        have ends : head ∈ value.getLast? := by
          rw [List.getLast?_eq_head?_reverse, flipped]
          rfl
        simp [last head ends]
    rw [strip, front, back, List.reverse_reverse]

end Str

end DbaBrain.Foundation
