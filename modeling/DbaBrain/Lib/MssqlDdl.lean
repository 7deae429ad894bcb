import DbaBrain.Foundation.TransactSql

/-!
# SQL Server literals

A value written into a statement where no parameter may stand, and names and texts
with their signs doubled.  Which values a server reads back from their literals is
told kind by kind.
-/

namespace DbaBrain.Lib.MssqlDdl

open DbaBrain.Foundation.Numerals DbaBrain.Foundation.TransactSql DbaBrain.Foundation.Double

/-! ## Values -/

/-- A finite float by the shortest digits that round to it, and the place of its point behind the first of them. -/
structure ShortFloat where
  negative : Bool
  digits : Nat
  point : Int
  short : digits < 10 ^ 17

/-- What `str` of a decimal shows of one that is no number. -/
inductive Special
  | infinity (negative : Bool)
  | nan (negative signaling : Bool) (payload : Nat)

/-- The values a literal is written of. -/
inductive Value
  | none
  | boolean (value : Bool)
  | integer (value : Int)
  | float (value : ShortFloat)
  | infinity (negative : Bool)
  | nan
  | decimal (negative : Bool) (coefficient : Nat) (exponent : Int)
  | special (value : Special)
  | binary (bytes : List UInt8)
  | datetime (date : Date) (hour : Fin 24) (minute second : Fin 60) (microsecond : Fin 1000000) (offset : Option Int)
  | date (date : Date)
  | time (hour : Fin 24) (minute second : Fin 60) (microsecond : Fin 1000000) (offset : Option Int)
  | text (text : List Char)

/-! ## Numbers as `str` shows them -/

/-- Digits with a point in or beside them: the whole part and the fraction. -/
def layout (digits : List Char) (point : Int) : List Char × List Char :=
  if point ≤ 0 then (['0'], List.replicate (-point).toNat '0' ++ digits)
  else if digits.length ≤ point then (digits ++ List.replicate (point - digits.length).toNat '0', [])
  else (digits.take point.toNat, digits.drop point.toNat)

def integerNumeral (value : Int) : Numeral := ⟨value < 0, decimalDigits.padded 1 value.natAbs, [], none⟩

/-- A float has a fraction where it has no exponent, and one from the seventeenth place on or below the fifth behind the
point. -/
def floatNumeral (value : ShortFloat) : Numeral :=
  let digits := decimalDigits.padded 1 value.digits
  if -4 < value.point ∧ value.point ≤ 16 then
    let (whole, fraction) := layout digits value.point
    ⟨value.negative, whole, if fraction = [] then ['0'] else fraction, none⟩
  else
    let (whole, fraction) := layout digits 1
    ⟨value.negative, whole, fraction, some (value.point - 1)⟩

def decimalNumeral (negative : Bool) (coefficient : Nat) (exponent : Int) : Numeral :=
  let digits := decimalDigits.padded 1 coefficient
  let left := exponent + digits.length
  let point := if exponent ≤ 0 ∧ -6 < left then left else 1
  let (whole, fraction) := layout digits point
  ⟨negative, whole, fraction, if left = point then none else some (left - point)⟩

def sign (negative : Bool) : List Char := if negative then ['-'] else []

def specialText : Special → List Char
  | .infinity negative => sign negative ++ "Infinity".toList
  | .nan negative signaling payload =>
      sign negative ++ ((if signaling then ['s'] else []) ++ "NaN".toList) ++
        if payload = 0 then [] else decimalDigits.padded 1 payload

/-! ## Literals -/

def quote (name : List Char) : List Char := '[' :: (doubled ']' name ++ [']'])

def quoteString (text : List Char) : List Char := 'N' :: '\'' :: (doubled '\'' text ++ ['\''])

/-- `strftime("%H:%M:%S.%f")`. -/
def clockDigits (hour minute second microsecond : Nat) : List Char :=
  decimalDigits.numeral 2 hour ++ ':' :: (decimalDigits.numeral 2 minute ++
    ':' :: (decimalDigits.numeral 2 second ++ '.' :: decimalDigits.numeral 6 microsecond))

/-- `[:-3]`. -/
def dropThree (text : List Char) : List Char := text.take (text.length - 3)

def literal : Value → List Char
  | .none => "NULL".toList
  | .boolean value => if value then ['1'] else ['0']
  | .integer value => (integerNumeral value).text 'e' 1
  | .float value => (floatNumeral value).text 'e' 2
  | .infinity negative => sign negative ++ "inf".toList
  | .nan => "nan".toList
  | .decimal negative coefficient exponent => (decimalNumeral negative coefficient exponent).text 'E' 1
  | .special value => specialText value
  | .binary bytes => '0' :: 'x' :: (bytes.map UInt8.toNat).flatMap (hexDigits.numeral 2)
  | .datetime date hour minute second microsecond _ =>
      '\'' :: (dropThree (date.text ++ 'T' :: clockDigits hour minute second microsecond) ++ ['\''])
  | .date date => '\'' :: (date.text ++ ['\''])
  | .time hour minute second microsecond _ => '\'' :: (dropThree (clockDigits hour minute second microsecond) ++ ['\''])
  | .text text => quoteString text

/-! ## What the values are -/

def floatValue (value : ShortFloat) : ℚ :=
  double ((if value.negative then -1 else 1) * value.digits *
    10 ^ (value.point - (decimalDigits.padded 1 value.digits).length))

def decimalValue (negative : Bool) (coefficient : Nat) (exponent : Int) : ℚ :=
  (if negative then -1 else 1) * coefficient * 10 ^ exponent

def clock (hour : Fin 24) (minute second : Fin 60) (microsecond : Fin 1000000) : Clock where
  hour := hour
  minute := minute
  second := second
  ticks := microsecond * 10
  hours := hour.isLt
  minutes := minute.isLt
  seconds := second.isLt
  subseconds := by omega

def meaning : Value → Option Meaning
  | .none => some .null
  | .boolean value => some (.number (if value then 1 else 0))
  | .integer value => some (.number value)
  | .float value => some (.number (floatValue value))
  | .infinity _ | .nan | .special _ => none
  | .decimal negative coefficient exponent => some (.number (decimalValue negative coefficient exponent))
  | .binary bytes => some (.binary (bytes.map UInt8.toNat))
  | .datetime date hour minute second microsecond offset =>
      some (.datetime date (clock hour minute second microsecond) offset)
  | .date date => some (.date date)
  | .time hour minute second microsecond offset => some (.time (clock hour minute second microsecond) offset)
  | .text text => some (.text text)

def kindOf : Value → Kind
  | .float _ | .infinity _ | .nan => .float
  | .binary _ => .binary
  | .text _ => .text
  | .date _ => .date
  | .time .. => .time
  | .datetime _ _ _ _ _ none => .datetime
  | .datetime _ _ _ _ _ (some _) => .datetimeOffset
  | _ => .number

def Denotes (value : Value) : Prop := ∃ has, meaning value = some has ∧
    evaluate (kindOf value) (literal value) = some has

/-- The values a literal keeps. -/
def IsKept : Value → Prop
  | .none | .boolean _ | .binary _ | .date _ => True
  | .integer value => value.natAbs < 10 ^ 38
  -- a float is zero or normal
  | .float value => value.digits = 0 ∨ 2 ^ (-1022 : ℤ) ≤ |floatValue value| ∧ |floatValue value| < 2 ^ (1024 : ℤ)
  -- a decimal has no more digits than an exact number, or with an exponent is a float
  | .decimal negative coefficient exponent =>
      if (decimalNumeral negative coefficient exponent).exponent = none then
        fits (decimalNumeral negative coefficient exponent).whole
          (decimalNumeral negative coefficient exponent).fraction = true
      else floatOf (decimalValue negative coefficient exponent) = some (decimalValue negative coefficient exponent)
  | .infinity _ | .nan | .special _ => False
  | .datetime _ _ _ _ microsecond offset => microsecond.val % 1000 = 0 ∧ (offset = none ∨ offset = some 0)
  | .time _ _ _ microsecond offset => microsecond.val % 1000 = 0 ∧ offset = none
  | .text text => KeepsLines text

/-! ## Numbers -/

section Numbers

variable {digits : List Char} {point : Int}

theorem value_zeros (count : Nat) : decimalDigits.value (List.replicate count '0') = 0 := by
  induction count with
  | zero => rfl
  | succ count ih =>
    have zero : decimalDigits.read '0' = 0 := rfl
    rw [List.replicate_succ, Digits.value_cons, ih, zero]
    rfl

/-- Digits with a point among them are a number of as many places. -/
theorem layout_value (digits : List Char) (point : Int) :
    (decimalDigits.value ((layout digits point).1 ++ (layout digits point).2) : ℚ) *
        10 ^ (-((layout digits point).2.length : Int)) =
      decimalDigits.value digits * 10 ^ (point - digits.length) := by
  unfold layout
  split_ifs with left right
  · have whole : decimalDigits.value (['0'] ++ (List.replicate (-point).toNat '0' ++ digits)) =
    decimalDigits.value digits := by
      have zeros := value_zeros (-point).toNat
      have zero : decimalDigits.value ['0'] = 0 := rfl
      rw [Digits.value_append, Digits.value_append, zeros, zero]
      ring
    have places : (((List.replicate (-point).toNat '0' ++ digits).length : Nat) : Int) = digits.length - point := by
      rw [List.length_append, List.length_replicate]
      omega
    rw [whole, places]
    congr 2
    omega
  · have whole : decimalDigits.value (digits ++ List.replicate (point - digits.length).toNat '0' ++ []) =
        10 ^ (point - digits.length).toNat * decimalDigits.value digits := by
      rw [List.append_nil, Digits.value_append, value_zeros, List.length_replicate, Nat.add_zero]
    have places : ((point - digits.length).toNat : Int) = point - digits.length := by omega
    rw [whole]
    push_cast
    rw [List.length_nil, ← zpow_natCast (10 : ℚ) (point - digits.length).toNat, places, Nat.cast_zero, neg_zero,
      zpow_zero, mul_one, mul_comm]
  · have places : ((digits.drop point.toNat).length : Int) = digits.length - point := by
      rw [List.length_drop]
      omega
    rw [List.take_append_drop, places]
    congr 2
    omega

theorem isDigit_layout (all : ∀ c ∈ digits, c.isDigit = true) (stated : digits ≠ []) :
    (layout digits point).1 ≠ [] ∧ (∀ c ∈ (layout digits point).1, c.isDigit = true) ∧
      ∀ c ∈ (layout digits point).2, c.isDigit = true := by
  have zeros (count : Nat) : ∀ c ∈ List.replicate count '0', c.isDigit = true := by
    intro c member
    rw [List.eq_of_mem_replicate member]
    rfl
  unfold layout
  split_ifs with left right
  · refine ⟨List.cons_ne_nil _ _, by simp, ?_⟩
    exact List.forall_mem_append.mpr ⟨zeros _, all⟩
  · refine ⟨by simp [stated], List.forall_mem_append.mpr ⟨all, zeros _⟩, by simp⟩
  · refine ⟨?_, fun c member => all c (List.mem_of_mem_take member),
    fun c member => all c (List.mem_of_mem_drop member)⟩
    have some_digit := List.length_pos_iff.mpr stated
    apply List.ne_nil_of_length_pos
    rw [List.length_take]
    omega

theorem numeral_value (negative : Bool) (digits : List Char) (point : Int) (exponent : Option Int) :
    Numeral.value ⟨negative, (layout digits point).1, (layout digits point).2, exponent⟩ =
      (if negative then -1 else 1) * decimalDigits.value digits * 10 ^ (point - digits.length + exponent.getD 0) := by
  have laid := layout_value digits point
  have base : (10 : ℚ) ≠ 0 := by norm_num
  unfold Numeral.value
  dsimp only
  rw [sub_eq_add_neg, add_comm, zpow_add₀ base, ← mul_assoc, mul_assoc _ _ ((10 : ℚ) ^ (-(_ : Int))), laid, ← mul_assoc,
    mul_assoc, ← zpow_add₀ base]

theorem written_layout (negative : Bool) (all : ∀ c ∈ digits, c.isDigit = true) (stated : digits ≠ []) (point : Int)
    (exponent : Option Int) :
    Numeral.Written ⟨negative, (layout digits point).1, (layout digits point).2, exponent⟩ := by
  obtain ⟨filled, whole, fraction⟩ := @isDigit_layout _ point all stated
  exact ⟨filled, whole, fraction⟩

theorem value_integerNumeral (value : Int) : (integerNumeral value).value = value := by
  have size : (value.natAbs : ℚ) = ((|value| : Int) : ℚ) := Nat.cast_natAbs value
  unfold integerNumeral Numeral.value
  dsimp only
  rw [List.append_nil, value_padded, size]
  by_cases below : value < 0
  · rw [abs_of_neg below]
    simp [below]
  · rw [abs_of_nonneg (not_lt.mp below)]
    simp [below]

theorem value_decimalNumeral (negative : Bool) (coefficient : Nat) (exponent : Int) :
    (decimalNumeral negative coefficient exponent).value = decimalValue negative coefficient exponent := by
  have places (length point : Int) : point - length +
      (if exponent + length = point then none else some (exponent + length - point)).getD 0 = exponent := by
    split_ifs with same
    · rw [Option.getD_none]
      omega
    · rw [Option.getD_some]
      omega
  unfold decimalNumeral decimalValue
  dsimp only
  rw [numeral_value, value_padded, places]

/-- A zero behind the point changes no number. -/
theorem value_zero_fraction (negative : Bool) (whole : List Char) :
    Numeral.value ⟨negative, whole, ['0'], none⟩ = Numeral.value ⟨negative, whole, [], none⟩ := by
  have shifted : decimalDigits.value (whole ++ ['0']) = 10 * decimalDigits.value whole := by
    have zero : decimalDigits.value ['0'] = 0 := rfl
    rw [Digits.value_append, zero]
    rfl
  unfold Numeral.value
  dsimp only
  have tenth : (10 : ℚ) * 10 ^ (-1 : ℤ) = 1 := by norm_num
  have places : (10 : ℚ) * 10 ^ ((none : Option Int).getD 0 - ((['0'].length : Nat) : Int)) = 1 := tenth
  rw [shifted, List.append_nil, Nat.cast_mul, Nat.cast_ofNat, mul_comm (10 : ℚ), ← mul_assoc, mul_assoc _ (10 : ℚ),
    places, List.length_nil]
  rfl

theorem value_floatNumeral (value : ShortFloat) : (floatNumeral value).value =
    (if value.negative then -1 else 1) * value.digits *
      10 ^ (value.point - (decimalDigits.padded 1 value.digits).length) := by
  have laid := numeral_value value.negative (decimalDigits.padded 1 value.digits)
  simp only [value_padded] at laid
  unfold floatNumeral
  dsimp only
  by_cases fixed : -4 < value.point ∧ value.point ≤ 16
  · have shown := laid value.point none
    rw [Option.getD_none, add_zero] at shown
    rw [if_pos fixed, ← shown]
    by_cases empty : (layout (decimalDigits.padded 1 value.digits) value.point).2 = []
    · rw [if_pos empty, value_zero_fraction, empty]
    · rw [if_neg empty]
  · have places (length : Int) : 1 - length + (some (value.point - 1)).getD 0 = value.point - length := by
      rw [Option.getD_some]
      ring
    rw [if_neg fixed, laid, places]

end Numbers

/-! ## Numerals in columns -/

section Columns

theorem evaluate_text {mark : Char} (marks : mark = 'e' ∨ mark = 'E') (width : Nat) {numeral : Numeral}
    (written : numeral.Written) (kind : Kind) :
    evaluate kind (numeral.text mark width) = (numberConstant numeral).bind (convert kind) := by
  rw [evaluate, readConstant_text marks width written]

theorem written_integerNumeral (value : Int) : (integerNumeral value).Written :=
  ⟨padded_ne_nil _ _, isDigit_padded _ _, fun _ member => absurd member List.not_mem_nil⟩

theorem written_decimalNumeral (negative : Bool) (coefficient : Nat) (exponent : Int) :
    (decimalNumeral negative coefficient exponent).Written :=
  written_layout negative (isDigit_padded _ _) (padded_ne_nil _ _) _ _

theorem written_floatNumeral (value : ShortFloat) : (floatNumeral value).Written := by
  have laid := written_layout value.negative (isDigit_padded 1 value.digits) (padded_ne_nil 1 value.digits)
  unfold floatNumeral
  dsimp only
  split_ifs with fixed empty
  · have point := laid value.point none
    exact ⟨point.stated, point.whole, by simp⟩
  · exact laid value.point none
  · exact laid 1 (some (value.point - 1))

/-- So many digits fit. -/
theorem fits_of_length {whole fraction : List Char} (digits : ∀ c ∈ whole, c.isDigit = true)
    (short : whole.length + fraction.length ≤ 38) : fits whole fraction = true := by
  rw [fits, Bool.and_eq_true, decide_eq_true_eq, decide_eq_true_eq]
  refine ⟨by omega, lt_of_lt_of_le (decimalDigits.value_lt digits) ?_⟩
  exact Nat.pow_le_pow_right (by decide) (by omega)

theorem length_padded_le {digits : Nat} (short : digits < 10 ^ 17) : (decimalDigits.padded 1 digits).length ≤ 17 := by
  rw [Digits.padded, Digits.length_numeral]
  have log : Nat.log 10 digits < 17 := Nat.log_lt_of_lt_pow' (by decide) short
  omega

/-- A float without an exponent fits. -/
theorem fits_floatNumeral (value : ShortFloat) (fixed : -4 < value.point ∧ value.point ≤ 16) :
    fits (floatNumeral value).whole (floatNumeral value).fraction = true := by
  have few := length_padded_le value.short
  have written := written_floatNumeral value
  refine fits_of_length written.whole ?_
  unfold floatNumeral
  dsimp only
  rw [if_pos fixed]
  unfold layout
  split_ifs <;> simp only [List.length_append, List.length_replicate, List.length_cons, List.length_nil,
    List.length_take,
    List.length_drop] <;> omega

theorem denotes_integer (value : Int) : Denotes (.integer value) ↔ value.natAbs < 10 ^ 38 := by
  have written := evaluate_text (Or.inl rfl) 1 (written_integerNumeral value) .number
  have room : fits (integerNumeral value).whole (integerNumeral value).fraction = decide (value.natAbs < 10 ^ 38) := by
    change fits (decimalDigits.padded 1 value.natAbs) [] = _
    rw [fits, value_padded]
    simp
  unfold Denotes
  change (∃ has, some (Meaning.number value) = some has ∧ evaluate .number ((integerNumeral value).text 'e' 1) =
    some has) ↔ _
  rw [written]
  unfold numberConstant
  change (∃ has, some (Meaning.number value) = some has ∧
    (if fits (integerNumeral value).whole (integerNumeral value).fraction
    then some (Constant.exact (integerNumeral value).value) else none).bind (convert .number) = some has) ↔ _
  rw [room, value_integerNumeral]
  by_cases small : value.natAbs < 10 ^ 38
  · refine iff_of_true ⟨_, rfl, ?_⟩ small
    rw [if_pos (decide_eq_true small)]
    rfl
  · refine iff_of_false ?_ small
    rintro ⟨has, -, read⟩
    rw [if_neg (by rw [decide_eq_false small]; exact Bool.false_ne_true)] at read
    cases read

theorem floatOf_eq_iff (value : ℚ) : floatOf value = some (double value) ↔
    value = 0 ∨ 2 ^ (-1022 : ℤ) ≤ |double value| ∧ |double value| < 2 ^ (1024 : ℤ) := by
  unfold floatOf
  by_cases zero : value = 0
  · have kept : double 0 = 0 := double_of_mul (show (0 : ℚ) = (0 : ℤ) * 2 ^ place 0 by simp)
    rw [if_pos zero, zero, kept]
    simp
  · rw [if_neg zero, or_iff_right zero]
    by_cases normal : 2 ^ (-1022 : ℤ) ≤ |double value| ∧ |double value| < 2 ^ (1024 : ℤ)
    · exact iff_of_true (if_pos normal) normal
    · rw [if_neg normal]
      exact iff_of_false (fun impossible => nomatch impossible) normal

/-- A float's literal is its number, rounded to a float. -/
theorem evaluate_float (value : ShortFloat) :
    evaluate .float ((floatNumeral value).text 'e' 2) = (floatOf (floatNumeral value).value).map .number := by
  rw [evaluate_text (Or.inl rfl) 2 (written_floatNumeral value)]
  unfold numberConstant
  by_cases fixed : -4 < value.point ∧ value.point ≤ 16
  · have whole : (floatNumeral value).exponent = none := by
      unfold floatNumeral
      dsimp only
      rw [if_pos fixed]
    rw [whole]
    dsimp only
    rw [if_pos (fits_floatNumeral value fixed)]
    rfl
  · have shifted : (floatNumeral value).exponent = some (value.point - 1) := by
      unfold floatNumeral
      dsimp only
      rw [if_neg fixed]
    rw [shifted]
    dsimp only
    cases floatOf (floatNumeral value).value <;> rfl

theorem denotes_float (value : ShortFloat) : Denotes (.float value) ↔ IsKept (.float value) := by
  have rounded : floatValue value = double (floatNumeral value).value := by
    rw [value_floatNumeral]
    rfl
  have zero : (floatNumeral value).value = 0 ↔ value.digits = 0 := by
    have sign : (if value.negative then (-1 : ℚ) else 1) ≠ 0 := by split_ifs <;> norm_num
    have power : (10 : ℚ) ^ (value.point - (decimalDigits.padded 1 value.digits).length) ≠ 0 := by positivity
    rw [value_floatNumeral, mul_eq_zero, mul_eq_zero, or_iff_left power, or_iff_right sign, Nat.cast_eq_zero]
  unfold Denotes
  change (∃ has, some (Meaning.number (floatValue value)) = some has ∧
    evaluate .float ((floatNumeral value).text 'e' 2) = some has) ↔
      (value.digits = 0 ∨ 2 ^ (-1022 : ℤ) ≤ |floatValue value| ∧ |floatValue value| < 2 ^ (1024 : ℤ))
  rw [evaluate_float, rounded, ← zero, ← floatOf_eq_iff]
  constructor
  · rintro ⟨has, same, read⟩
    rw [← same, Option.map_eq_some_iff] at read
    obtain ⟨found, float, told⟩ := read
    rw [float, Meaning.number.inj told]
  · intro float
    exact ⟨_, rfl, by rw [float]; rfl⟩

theorem denotes_decimal (negative : Bool) (coefficient : Nat) (exponent : Int) :
    Denotes (.decimal negative coefficient exponent) ↔ IsKept (.decimal negative coefficient exponent) := by
  unfold Denotes
  change (∃ has, some (Meaning.number (decimalValue negative coefficient exponent)) = some has ∧
    evaluate .number ((decimalNumeral negative coefficient exponent).text 'E' 1) = some has) ↔
      (if (decimalNumeral negative coefficient exponent).exponent = none then
        fits (decimalNumeral negative coefficient exponent).whole
          (decimalNumeral negative coefficient exponent).fraction = true
      else floatOf (decimalValue negative coefficient exponent) = some (decimalValue negative coefficient exponent))
  rw [evaluate_text (Or.inr rfl) 1 (written_decimalNumeral negative coefficient exponent),
    ← value_decimalNumeral negative coefficient exponent]
  unfold numberConstant
  cases shown : (decimalNumeral negative coefficient exponent).exponent with
  | none =>
    dsimp only
    rw [if_pos rfl]
    by_cases room : fits (decimalNumeral negative coefficient exponent).whole
        (decimalNumeral negative coefficient exponent).fraction = true
    · rw [if_pos room]
      exact iff_of_true ⟨_, rfl, rfl⟩ room
    · rw [if_neg room]
      refine iff_of_false ?_ room
      rintro ⟨has, -, read⟩
      cases read
  | some shift =>
    dsimp only
    rw [if_neg (Option.some_ne_none _)]
    cases floatOf (decimalNumeral negative coefficient exponent).value with
    | none =>
      refine iff_of_false ?_ (fun impossible => nomatch impossible)
      rintro ⟨has, -, read⟩
      cases read
    | some float =>
      change (∃ has, _ ∧ some (Meaning.number float) = some has) ↔ _
      constructor
      · rintro ⟨has, same, read⟩
        rw [← same, Option.some.injEq] at read
        rw [Meaning.number.inj read]
      · intro same
        exact ⟨_, rfl, congrArg some (congrArg Meaning.number (Option.some.inj same))⟩

end Columns

/-! ## Dates and times in columns -/

section Moments

theorem dropThree_clock (front : List Char) (hour minute second microsecond : Nat) :
    dropThree (front ++ clockDigits hour minute second microsecond) =
      front ++ clockText hour minute second (microsecond / 1000) := by
  have cut : (decimalDigits.numeral 6 microsecond).take 3 = decimalDigits.numeral 3 (microsecond / 10 ^ 3) :=
    decimalDigits.take_numeral 3 3 microsecond
  have sixth := decimalDigits.length_numeral 6 microsecond
  have pieces : front ++ clockDigits hour minute second microsecond =
      (front ++ decimalDigits.numeral 2 hour ++ ':' :: (decimalDigits.numeral 2 minute ++
        ':' :: (decimalDigits.numeral 2 second ++ ['.']))) ++ decimalDigits.numeral 6 microsecond := by
    simp [clockDigits]
  have whole : front ++ clockText hour minute second (microsecond / 1000) =
      (front ++ decimalDigits.numeral 2 hour ++ ':' :: (decimalDigits.numeral 2 minute ++
        ':' :: (decimalDigits.numeral 2 second ++ ['.']))) ++ decimalDigits.numeral 3 (microsecond / 10 ^ 3) := by
    simp [clockText]
  rw [pieces, whole, dropThree, List.length_append, sixth, ← cut, List.take_append]
  rw [List.take_of_length_le (by omega)]
  congr 2
  omega

/-- The characters of dates and times. -/
theorem mem_date {c : Char} {date : Date} (member : c ∈ date.text) : c.isDigit = true ∨ c ∈ ['-', ':', 'T', '.'] := by
  have digit (width number : Nat) (within : c ∈ decimalDigits.numeral width number) : c.isDigit = true :=
    decimalDigits.isDigit_numeral width number c within
  simp only [Date.text, List.mem_append, List.mem_cons] at member
  rcases member with year | rfl | month | rfl | day
  · exact Or.inl (digit _ _ year)
  · exact Or.inr (by decide)
  · exact Or.inl (digit _ _ month)
  · exact Or.inr (by decide)
  · exact Or.inl (digit _ _ day)

theorem mem_clock {c : Char} {hour minute second milliseconds : Nat}
    (member : c ∈ clockText hour minute second milliseconds) : c.isDigit = true ∨ c ∈ ['-', ':', 'T', '.'] := by
  have digit (width number : Nat) (within : c ∈ decimalDigits.numeral width number) : c.isDigit = true :=
    decimalDigits.isDigit_numeral width number c within
  simp only [clockText, List.mem_append, List.mem_cons] at member
  rcases member with hours | rfl | minutes | rfl | seconds | rfl | thousandths
  · exact Or.inl (digit _ _ hours)
  · exact Or.inr (by decide)
  · exact Or.inl (digit _ _ minutes)
  · exact Or.inr (by decide)
  · exact Or.inl (digit _ _ seconds)
  · exact Or.inr (by decide)
  · exact Or.inl (digit _ _ thousandths)

theorem evaluate_plain {text : List Char} (kind : Kind) (plain : ∀ c ∈ text,
    c.isDigit = true ∨ c ∈ ['-', ':', 'T', '.']) :
    evaluate kind ('\'' :: (text ++ ['\''])) = convert kind (.plain text) := by
  have foreign (c : Char) (other : c = '\'' ∨ c = '\\') : c ∉ text := by
    intro member
    rcases other with rfl | rfl <;> exact absurd (plain _ member) (by decide)
  rw [evaluate, readConstant_plain (foreign _ (Or.inl rfl)) (foreign _ (Or.inr rfl))]
  rfl

theorem plain_clock (hour minute second milliseconds : Nat) :
    ∀ c ∈ clockText hour minute second milliseconds, c.isDigit = true ∨ c ∈ ['-', ':', 'T', '.'] :=
  fun _ member => mem_clock member

theorem plain_dateTime (date : Date) (hour minute second milliseconds : Nat) :
    ∀ c ∈ date.text ++ 'T' :: clockText hour minute second milliseconds, c.isDigit = true ∨ c ∈ ['-', ':', 'T',
      '.'] := by
  intro c member
  rcases List.mem_append.mp member with front | back
  · exact mem_date front
  · rcases List.mem_cons.mp back with rfl | inside
    · exact Or.inr (by decide)
    · exact mem_clock inside

variable (hour : Fin 24) (minute second : Fin 60) (microsecond : Fin 1000000)

/-- A time to whole milliseconds. -/
def wholeClock : Clock where
  hour := hour
  minute := minute
  second := second
  ticks := microsecond / 1000 * 10 ^ 4
  hours := hour.isLt
  minutes := minute.isLt
  seconds := second.isLt
  subseconds := by omega

theorem wholeClock_eq_iff : wholeClock hour minute second microsecond = clock hour minute second microsecond ↔
    microsecond.val % 1000 = 0 := by
  unfold wholeClock clock
  rw [Clock.mk.injEq]
  omega

theorem readClock_whole : readClock (clockText hour minute second (microsecond / 1000)) =
    some (wholeClock hour minute second microsecond) :=
  readClock_text hour.isLt minute.isLt second.isLt (by omega)

theorem readDateTime_whole (date : Date) :
    readDateTime (date.text ++ 'T' :: clockText hour minute second (microsecond / 1000)) =
      some (date, wholeClock hour minute second microsecond) := by
  unfold readDateTime
  simp only [readDate_text, skip_cons, readClock_whole, Option.bind_eq_bind, Option.bind_some]

/-- What a server has from a time's literal. -/
theorem evaluate_time (offset : Option Int) :
    evaluate .time (literal (.time hour minute second microsecond offset)) =
      some (.time (wholeClock hour minute second microsecond) none) := by
  have cut := dropThree_clock [] hour minute second microsecond
  rw [List.nil_append, List.nil_append] at cut
  rw [literal, cut, evaluate_plain .time (plain_clock _ _ _ _), convert, readClock_whole]
  rfl

theorem literal_datetime (date : Date) (offset : Option Int) :
    literal (.datetime date hour minute second microsecond offset) =
      '\'' :: ((date.text ++ 'T' :: clockText hour minute second (microsecond / 1000)) ++ ['\'']) := by
  have cut := dropThree_clock (date.text ++ ['T']) hour minute second microsecond
  rw [List.append_assoc, List.append_assoc, List.singleton_append, List.singleton_append] at cut
  rw [literal, cut]

theorem evaluate_datetime (date : Date) (offset : Option Int) :
    evaluate (kindOf (.datetime date hour minute second microsecond offset))
        (literal (.datetime date hour minute second microsecond offset)) =
      some (.datetime date (wholeClock hour minute second microsecond) (offset.map fun _ => 0)) := by
  rw [literal_datetime, evaluate_plain _ (plain_dateTime _ _ _ _ _)]
  cases offset with
  | none =>
    rw [kindOf, convert, readDateTime_whole]
    rfl
  | some offset =>
    rw [kindOf, convert, readDateTime_whole]
    rfl

theorem denotes_time (offset : Option Int) : Denotes (.time hour minute second microsecond offset) ↔
    IsKept (.time hour minute second microsecond offset) := by
  have same := wholeClock_eq_iff hour minute second microsecond
  unfold Denotes
  rw [kindOf, evaluate_time]
  change _ ↔ microsecond.val % 1000 = 0 ∧ offset = none
  rw [← same]
  constructor
  · rintro ⟨has, means, read⟩
    have parts := Meaning.time.inj (Option.some.inj (read.trans means.symm))
    exact ⟨parts.1, parts.2.symm⟩
  · rintro ⟨whole, rfl⟩
    exact ⟨_, rfl, by rw [whole]⟩

theorem denotes_datetime (date : Date) (offset : Option Int) :
    Denotes (.datetime date hour minute second microsecond offset) ↔
      IsKept (.datetime date hour minute second microsecond offset) := by
  have same := wholeClock_eq_iff hour minute second microsecond
  have zero : (offset.map fun _ => (0 : Int)) = offset ↔ offset = none ∨ offset = some 0 := by
    cases offset with
    | none => simp
    | some offset => simp [eq_comm]
  unfold Denotes
  rw [evaluate_datetime]
  change _ ↔ microsecond.val % 1000 = 0 ∧ (offset = none ∨ offset = some 0)
  rw [← same, ← zero]
  constructor
  · rintro ⟨has, means, read⟩
    have parts := Meaning.datetime.inj (Option.some.inj (read.trans means.symm))
    exact ⟨parts.2.1, parts.2.2⟩
  · rintro ⟨whole, kept⟩
    exact ⟨_, rfl, by rw [whole, kept]⟩

theorem denotes_date (date : Date) : Denotes (.date date) := by
  have read := readDate_text date []
  rw [List.append_nil] at read
  refine ⟨_, rfl, ?_⟩
  rw [kindOf, literal, evaluate_plain .date fun c member => mem_date member, convert, readDay, read]
  rfl

end Moments

/-! ## Names and values -/

theorem doubled_injective (sign : Char) : Function.Injective (doubled sign) := by
  intro first second same
  have read := readClosed_doubled sign first
  rw [same, readClosed_doubled] at read
  exact (Option.some.inj read).symm

theorem readIdentifier_quote (name : List Char) :
    readIdentifier (quote name) = if 1 ≤ units name ∧ units name ≤ 128 then some name else none := by
  rw [quote, readIdentifier, readClosed_doubled]
  rfl

theorem evaluate_quoteString (text : List Char) :
    evaluate .text (quoteString text) = some (.text (joinLines text)) := by
  rw [evaluate, quoteString, readConstant_unicode]
  rfl

theorem denotes_text (text : List Char) : Denotes (.text text) ↔ KeepsLines text := by
  unfold Denotes
  rw [kindOf, literal, evaluate_quoteString, ← joinLines_eq_self_iff]
  constructor
  · rintro ⟨has, means, read⟩
    exact Meaning.text.inj (Option.some.inj (read.trans means.symm))
  · intro kept
    exact ⟨_, rfl, by rw [kept]⟩

theorem denotes_binary (bytes : List UInt8) : Denotes (.binary bytes) := by
  refine ⟨_, rfl, ?_⟩
  have bound : ∀ byte ∈ bytes.map UInt8.toNat, byte < 256 := by
    intro byte member
    obtain ⟨whole, -, rfl⟩ := List.mem_map.mp member
    exact whole.toNat_lt
  rw [evaluate, literal, readConstant_binary bound]
  rfl

theorem denotes_boolean (value : Bool) : Denotes (.boolean value) := by
  cases value with
  | true => exact (denotes_integer 1).mpr (by decide)
  | false => exact (denotes_integer 0).mpr (by decide)

/-- The server has a value from its literal exactly where the literal keeps it. -/
theorem denotes_iff_isKept (value : Value) : Denotes value ↔ IsKept value := by
  cases value with
  | none => exact iff_of_true ⟨.null, rfl, rfl⟩ trivial
  | boolean value => exact iff_of_true (denotes_boolean value) trivial
  | integer value => exact denotes_integer value
  | float value => exact denotes_float value
  | infinity negative => exact iff_of_false (fun ⟨_, shown, _⟩ => nomatch shown) id
  | nan => exact iff_of_false (fun ⟨_, shown, _⟩ => nomatch shown) id
  | decimal negative coefficient exponent => exact denotes_decimal negative coefficient exponent
  | special value => exact iff_of_false (fun ⟨_, shown, _⟩ => nomatch shown) id
  | binary bytes => exact iff_of_true (denotes_binary bytes) trivial
  | datetime date hour minute second microsecond offset =>
    exact denotes_datetime hour minute second microsecond date offset
  | date date => exact iff_of_true (denotes_date date) trivial
  | time hour minute second microsecond offset => exact denotes_time hour minute second microsecond offset
  | text text => exact denotes_text text

/-- The server has a value from its literal exactly where the literal keeps it, and no two such values that differ have
literals alike.  A name in brackets is one identifier unless it is empty or too long, and a text in quotes one string,
with a backslash at a line's end joining it to the next; no two names and no two texts are written alike. -/
theorem literal_denotes_iff (value : Value) :
    (Denotes value ↔ IsKept value) ∧
      (∀ other, IsKept value → IsKept other →
        evaluate (kindOf value) (literal value) = evaluate (kindOf other) (literal other) →
          meaning value = meaning other) ∧
      (∀ name, readIdentifier (quote name) = some name ↔ 1 ≤ units name ∧ units name ≤ 128) ∧
      (∀ text, evaluate .text (quoteString text) = some (.text (joinLines text))) ∧
      Function.Injective quote ∧ Function.Injective quoteString := by
  refine ⟨denotes_iff_isKept value, ?_, ?_, evaluate_quoteString, ?_, ?_⟩
  · intro other kept other_kept alike
    obtain ⟨has, means, read⟩ := (denotes_iff_isKept value).mpr kept
    obtain ⟨others, other_means, other_read⟩ := (denotes_iff_isKept other).mpr other_kept
    rw [read, other_read] at alike
    rw [means, other_means, alike]
  · intro name
    rw [readIdentifier_quote]
    by_cases room : 1 ≤ units name ∧ units name ≤ 128
    · exact iff_of_true (if_pos room) room
    · rw [if_neg room]
      exact iff_of_false (fun impossible => nomatch impossible) room
  · intro first second same
    exact doubled_injective ']' (List.append_cancel_right (List.cons.inj same).2)
  · intro first second same
    exact doubled_injective '\'' (List.append_cancel_right (List.cons.inj (List.cons.inj same).2).2)

/-- Two times of one day a microsecond apart have the same literal, so a server has neither or loses one. -/
theorem microseconds_are_cut :
    ∃ (date : Date) (first second : Fin 1000000), first ≠ second ∧
      literal (.datetime date 10 0 0 first none) = literal (.datetime date 10 0 0 second none) ∧
      ¬ Denotes (.datetime date 10 0 0 first none) ∧ ¬ Denotes (.datetime date 10 0 0 second none) := by
  refine ⟨⟨2026, 10, 16, by decide, by decide, by decide⟩, 123456, 123457, by decide, by decide +kernel, ?_, ?_⟩
  · intro denotes
    exact absurd ((denotes_datetime 10 0 0 123456 _ none).mp denotes).1 (by decide)
  · intro denotes
    exact absurd ((denotes_datetime 10 0 0 123457 _ none).mp denotes).1 (by decide)

end DbaBrain.Lib.MssqlDdl
