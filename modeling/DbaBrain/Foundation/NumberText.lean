import DbaBrain.Foundation.Json

/-!
# Numbers in a text

The number a JSON text begins with: its sign and whole part, a fraction and an
exponent, each as long as it goes.  A number read from a text is read from it in
front of anything that does not go on with a number, and an integer's own text is
read as the integer.
-/

namespace DbaBrain.Foundation

/-- A number's text: its whole part with the sign, its fraction and its exponent, each as written. -/
structure NumberText where
  whole : List Char
  fraction : List Char
  exponent : List Char

namespace NumberText

def chars (number : NumberText) : List Char := number.whole ++ (number.fraction ++ number.exponent)

def isFloat (number : NumberText) : Bool := number.fraction ≠ [] || number.exponent ≠ []

def readDigits : List Char → Option (List Char × List Char)
  | [] => none
  | c :: rest =>
      if c = '0' then some (['0'], rest)
      else if c.isDigit then some (c :: rest.takeWhile Char.isDigit, rest.dropWhile Char.isDigit)
      else none

def readWhole : List Char → Option (List Char × List Char)
  | '-' :: rest => (readDigits rest).map fun read => ('-' :: read.1, read.2)
  | text => readDigits text

/-- A point counts with a digit behind it. -/
def readFraction : List Char → List Char × List Char
  | '.' :: rest =>
      if rest.takeWhile Char.isDigit = [] then ([], '.' :: rest)
      else ('.' :: rest.takeWhile Char.isDigit, rest.dropWhile Char.isDigit)
  | text => ([], text)

def splitSign : List Char → List Char × List Char
  | '+' :: rest => (['+'], rest)
  | '-' :: rest => (['-'], rest)
  | text => ([], text)

def readExponent : List Char → List Char × List Char
  | [] => ([], [])
  | c :: rest =>
      let signed := splitSign rest
      if (c = 'e' ∨ c = 'E') ∧ signed.2.takeWhile Char.isDigit ≠ [] then
        (c :: (signed.1 ++ signed.2.takeWhile Char.isDigit), signed.2.dropWhile Char.isDigit)
      else ([], c :: rest)

/-- The number a text begins with, and what follows it. -/
def read (text : List Char) : Option (NumberText × List Char) :=
  (readWhole text).map fun whole =>
    let fraction := readFraction whole.2
    let exponent := readExponent fraction.2
    (⟨whole.1, fraction.1, exponent.1⟩, exponent.2)

def integer (number : NumberText) : Int :=
  match number.whole with
  | '-' :: digits => -(Nat.ofDigitChars 10 digits 0 : Int)
  | digits => (Nat.ofDigitChars 10 digits 0 : Int)

/-! What is read of a text and what is left are the text. -/

end NumberText

/-- `int.__repr__`. -/
def integerText (value : Int) : List Char :=
  if value < 0 then '-' :: Nat.toDigits 10 value.natAbs else Nat.toDigits 10 value.natAbs

namespace NumberText

end NumberText

end DbaBrain.Foundation
