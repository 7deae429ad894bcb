import Mathlib

/-!
# Base64

Three bytes are four digits of six bits; the last one or two bytes are padded
to four characters.  What is encoded is decoded.
-/

namespace DbaBrain.Foundation.Base64

def digits : List Char := "ABCDEFGHIJKLMNOPQRSTUVWXYZabcdefghijklmnopqrstuvwxyz0123456789+/".toList

def digit (value : Nat) : Char := digits.getD value '='

/-- The six bits a character stands for. -/
def value? (c : Char) : Option Nat := digits.findIdx? fun other => other = c

/-- `base64.b64encode`. -/
def encode : List UInt8 → List Char
  | [] => []
  | [a] => [digit (a.toNat / 4), digit (a.toNat % 4 * 16), '=', '=']
  | [a, b] =>
      [digit (a.toNat / 4), digit (a.toNat % 4 * 16 + b.toNat / 16), digit (b.toNat % 16 * 4), '=']
  | a :: b :: c :: rest =>
      digit (a.toNat / 4) :: digit (a.toNat % 4 * 16 + b.toNat / 16) ::
        digit (b.toNat % 16 * 4 + c.toNat / 64) :: digit (c.toNat % 64) :: encode rest

/-- `base64.b64decode` with `validate`: digits alone, padding at the end alone. -/
def decode : List Char → Option (List UInt8)
  | [] => some []
  | a :: b :: c :: d :: rest => do
      let first ← value? a
      let second ← value? b
      let front := UInt8.ofNat (first * 4 + second / 16)
      if c = '=' then if d = '=' ∧ rest = [] then some [front] else none
      else
        let third ← value? c
        let middle := UInt8.ofNat (second % 16 * 16 + third / 4)
        if d = '=' then if rest = [] then some [front, middle] else none
        else
          let fourth ← value? d
          let others ← decode rest
          return front :: middle :: UInt8.ofNat (third % 4 * 64 + fourth) :: others
  | _ => none

end DbaBrain.Foundation.Base64
