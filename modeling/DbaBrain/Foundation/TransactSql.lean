import DbaBrain.Foundation.Calendar
import DbaBrain.Foundation.Double
import DbaBrain.Foundation.Numerals
import DbaBrain.Foundation.Replacing

/-!
# Constants and identifiers of Transact-SQL

What a text means that stands as one constant or one delimited identifier: NULL, an
exact or an approximate number, binary, a Unicode text, or a text that is read as a
date or a time where a column of one takes it.
-/

namespace DbaBrain.Foundation.TransactSql

open DbaBrain.Foundation.Calendar DbaBrain.Foundation.Double DbaBrain.Foundation.Numerals
open DbaBrain.Foundation.Replacing

/-! ## Text between signs -/

/-- The text up to the closing sign at the end, seen behind such a sign or not; two in a row are one in the text. -/
def readClosed (sign : Char) : Bool → List Char → Option (List Char)
  | false, [] => none
  | true, [] => some []
  | false, c :: rest => if c = sign then readClosed sign true rest else (readClosed sign false rest).map (c :: ·)
  | true, c :: rest => if c = sign then (readClosed sign false rest).map (c :: ·) else none

def doubled (sign : Char) (text : List Char) : List Char := text.flatMap fun c => if c = sign then [sign, sign] else [c]

theorem readClosed_doubled (sign : Char) (text : List Char) :
    readClosed sign false (doubled sign text ++ [sign]) = some text := by
  induction text with
  | nil => simp [doubled, readClosed]
  | cons c text ih =>
    rw [doubled, List.flatMap_cons, ← doubled]
    by_cases closing : c = sign
    · rw [if_pos closing, List.append_assoc, List.cons_append, List.singleton_append, readClosed, if_pos rfl,
      readClosed,
        if_pos rfl, ih, closing]
      rfl
    · rw [if_neg closing, List.append_assoc, List.singleton_append, readClosed, if_neg closing, ih]
      rfl

/-- The number of UTF-16 units of a text. -/
def units (text : List Char) : Nat := (text.map fun c => if c.toNat < 65536 then 1 else 2).sum

/-- A delimited identifier. -/
def readIdentifier : List Char → Option (List Char)
  | '[' :: rest => (readClosed ']' false rest).bind fun name => if 1 ≤ units name ∧
    units name ≤ 128 then some name else none
  | _ => none

/-! ## Strings -/

/-- A backslash before a line break, with that break. -/
def lineJoin (text : List Char) : Option Nat :=
  if ['\\', '\n'] <+: text then some 1 else if ['\\', '\r', '\n'] <+: text then some 2 else none

/-- A backslash at a line's end joins it to the next. -/
def joinLines (text : List Char) : List Char := replaceAll lineJoin [] text

/-- No line of a text is joined to the next. -/
def KeepsLines (text : List Char) : Prop := ¬ ['\\', '\n'] <:+: text ∧ ¬ ['\\', '\r', '\n'] <:+: text

instance (text : List Char) : Decidable (KeepsLines text) := inferInstanceAs (Decidable (_ ∧ _))

theorem joinLines_eq_self_iff (text : List Char) : joinLines text = text ↔ KeepsLines text := by
  unfold joinLines KeepsLines
  rw [replaceAll_nil_eq_self_iff]
  constructor
  · intro all
    constructor
    · rintro ⟨front, back, rfl⟩
      have here := all '\\' ('\n' :: back) ⟨front, by simp⟩
      simp [lineJoin] at here
    · rintro ⟨front, back, rfl⟩
      have here := all '\\' ('\r' :: '\n' :: back) ⟨front, by simp⟩
      simp [lineJoin] at here
  · rintro ⟨no_feed, no_return⟩ c tail suffix
    unfold lineJoin
    rw [if_neg fun front => no_feed (front.isInfix.trans suffix.isInfix),
      if_neg fun front => no_return (front.isInfix.trans suffix.isInfix)]

/-! ## Numbers -/

/-- A number as it is written. -/
structure Numeral where
  negative : Bool
  whole : List Char
  fraction : List Char
  exponent : Option Int

def Numeral.value (numeral : Numeral) : ℚ :=
  (if numeral.negative then -1 else 1) * decimalDigits.value (numeral.whole ++ numeral.fraction) *
    10 ^ (numeral.exponent.getD 0 - numeral.fraction.length)

def isDigits (text : List Char) : Bool := text ≠ [] && text.all Char.isDigit

def readInteger : List Char → Option Int
  | '-' :: text => if isDigits text then some (-(decimalDigits.value text : Int)) else none
  | '+' :: text => if isDigits text then some (decimalDigits.value text) else none
  | text => if isDigits text then some (decimalDigits.value text) else none

def readExponent : List Char → Option (Option Int)
  | [] => some none
  | mark :: text => if mark = 'e' ∨ mark = 'E' then (readInteger text).map some else none

def readUnsigned (negative : Bool) (text : List Char) : Option Numeral :=
  let whole := text.takeWhile Char.isDigit
  if whole = [] then none
  else
    match text.dropWhile Char.isDigit with
    | '.' :: more =>
        (readExponent (more.dropWhile Char.isDigit)).map fun exponent =>
          ⟨negative, whole, more.takeWhile Char.isDigit, exponent⟩
    | rest => (readExponent rest).map fun exponent => ⟨negative, whole, [], exponent⟩

/-- A number and its sign. -/
def readNumeral : List Char → Option Numeral
  | '-' :: text => readUnsigned true text
  | text => readUnsigned false text

/-- A numeral has no more digits than the widest exact number. -/
def fits (whole fraction : List Char) : Bool :=
  fraction.length ≤ 38 && decimalDigits.value whole < 10 ^ (38 - fraction.length)

/-- The float nearest to a number, within the range of normal ones. -/
def floatOf (value : ℚ) : Option ℚ :=
  if value = 0 then some 0
  else if 2 ^ (-1022 : ℤ) ≤ |double value| ∧ |double value| < 2 ^ (1024 : ℤ) then some (double value)
  else none

/-- An exponent behind its mark, of at least so many digits. -/
def exponentText (mark : Char) (width : Nat) : Option Int → List Char
  | none => []
  | some exponent => mark :: (if exponent < 0 then '-' else '+') :: decimalDigits.padded width exponent.natAbs

def Numeral.text (mark : Char) (width : Nat) (numeral : Numeral) : List Char :=
  (if numeral.negative then ['-'] else []) ++
    (numeral.whole ++ ((if numeral.fraction = [] then [] else '.' :: numeral.fraction) ++
      exponentText mark width numeral.exponent))

structure Numeral.Written (numeral : Numeral) : Prop where
  stated : numeral.whole ≠ []
  whole : ∀ c ∈ numeral.whole, c.isDigit = true
  fraction : ∀ c ∈ numeral.fraction, c.isDigit = true

section Reading

variable {text rest : List Char}

theorem takeWhile_digits (digits : ∀ c ∈ text, c.isDigit = true) (ends : ∀ c ∈ rest.head?, c.isDigit = false) :
    (text ++ rest).takeWhile Char.isDigit = text ∧ (text ++ rest).dropWhile Char.isDigit = rest := by
  rw [List.takeWhile_append_of_pos digits, List.dropWhile_append_of_pos digits]
  cases rest with
  | nil => simp
  | cons c rest =>
    have stop : c.isDigit = false := ends c rfl
    simp [stop]

theorem isDigit_padded (width number : Nat) : ∀ c ∈ decimalDigits.padded width number, c.isDigit = true :=
  decimalDigits.isDigit_numeral _ _

theorem padded_ne_nil (width number : Nat) : decimalDigits.padded width number ≠ [] := by
  apply List.ne_nil_of_length_pos
  rw [Digits.padded, Digits.length_numeral]
  omega

theorem value_padded (width number : Nat) : decimalDigits.value (decimalDigits.padded width number) = number := by
  have base : 1 < 10 := by decide
  refine decimalDigits.value_numeral (lt_of_lt_of_le (Nat.lt_pow_succ_log_self base number) ?_)
  exact Nat.pow_le_pow_right (by decide) (le_max_right _ _)

theorem isDigits_padded (width number : Nat) : isDigits (decimalDigits.padded width number) = true := by
  rw [isDigits, Bool.and_eq_true, List.all_eq_true]
  exact ⟨decide_eq_true (padded_ne_nil width number), isDigit_padded width number⟩

variable {mark : Char}

theorem readExponent_text (marks : mark = 'e' ∨ mark = 'E') (width : Nat) (exponent : Option Int) :
    readExponent (exponentText mark width exponent) = some exponent := by
  cases exponent with
  | none => rfl
  | some exponent =>
    rw [exponentText, readExponent, if_pos marks]
    split_ifs with below
    · rw [readInteger, if_pos (isDigits_padded _ _), value_padded]
      simp only [Option.map_some, Option.some.injEq]
      omega
    · rw [readInteger, if_pos (isDigits_padded _ _), value_padded]
      simp only [Option.map_some, Option.some.injEq]
      omega

theorem ends_exponentText (marks : mark = 'e' ∨ mark = 'E') (width : Nat) (exponent : Option Int) :
    ∀ c ∈ (exponentText mark width exponent).head?, c.isDigit = false ∧ c ≠ '.' := by
  cases exponent with
  | none => simp [exponentText]
  | some exponent =>
    have ends : mark.isDigit = false ∧ mark ≠ '.' := by
      rcases marks with rfl | rfl <;> decide
    simpa [exponentText] using ends

/-- The digits of a number and what ends them. -/
theorem readUnsigned_append (negative : Bool) {whole fraction : List Char} (stated : whole ≠ [])
    (digits : ∀ c ∈ whole, c.isDigit = true) (decimals : ∀ c ∈ fraction, c.isDigit = true)
    (ends : ∀ c ∈ rest.head?, c.isDigit = false ∧ c ≠ '.') :
    readUnsigned negative (whole ++ ((if fraction = [] then [] else '.' :: fraction) ++ rest)) =
      (readExponent rest).map fun exponent => ⟨negative, whole, fraction, exponent⟩ := by
  have stops : ∀ c ∈ rest.head?, c.isDigit = false := fun c first => (ends c first).1
  by_cases none : fraction = []
  · obtain ⟨front, back⟩ := takeWhile_digits digits stops
    rw [if_pos none, List.nil_append, none]
    unfold readUnsigned
    dsimp only
    rw [front, back, if_neg stated]
    cases rest with
    | nil => rfl
    | cons c rest =>
      have other : c ≠ '.' := (ends c rfl).2
      split
      · next same => exact absurd (List.cons.inj same).1 other
      · rfl
  · rw [if_neg none, List.cons_append]
    obtain ⟨front, back⟩ := @takeWhile_digits _ ('.' :: (fraction ++ rest)) digits (by simp)
    obtain ⟨inner, outer⟩ := takeWhile_digits decimals stops
    unfold readUnsigned
    dsimp only
    rw [front, back, if_neg stated]
    change (readExponent ((fraction ++ rest).dropWhile Char.isDigit)).map (fun exponent =>
      (⟨negative, whole, (fraction ++ rest).takeWhile Char.isDigit, exponent⟩ : Numeral)) = _
    rw [inner, outer]

variable {numeral : Numeral}

theorem readNumeral_text (marks : mark = 'e' ∨ mark = 'E') (width : Nat) (written : numeral.Written) :
    readNumeral (numeral.text mark width) = some numeral := by
  obtain ⟨negative, whole, fraction, exponent⟩ := numeral
  have unsigned : readUnsigned negative (whole ++ ((if fraction = [] then [] else '.' :: fraction) ++
      exponentText mark width exponent)) = some ⟨negative, whole, fraction, exponent⟩ := by
    rw [readUnsigned_append negative written.stated written.whole written.fraction
      (ends_exponentText marks width exponent),
      readExponent_text marks]
    rfl
  cases negative with
  | true => exact unsigned
  | false =>
    obtain ⟨c, others, rfl⟩ := List.exists_cons_of_ne_nil written.stated
    have first : c.isDigit = true := written.whole c List.mem_cons_self
    have other : c ≠ '-' := by
      rintro rfl
      cases first
    have unminused : readNumeral (Numeral.text mark width ⟨false, c :: others, fraction, exponent⟩) =
        readUnsigned false (Numeral.text mark width ⟨false, c :: others, fraction, exponent⟩) :=
      readNumeral.eq_2 _ fun text same => other (List.cons.inj same).1
    rw [unminused]
    exact unsigned

/-- The characters of a numeral's text. -/
theorem mem_text {c : Char} {width : Nat} (written : numeral.Written) (member : c ∈ numeral.text mark width) :
    c.isDigit = true ∨ c ∈ ['-', '+', '.', mark] := by
  simp only [Numeral.text, List.mem_append] at member
  rcases member with sign | whole | fraction | exponent
  · split_ifs at sign with negative
    · exact Or.inr (by simp [List.mem_singleton.mp sign])
    · exact absurd sign List.not_mem_nil
  · exact Or.inl (written.whole c whole)
  · split_ifs at fraction with none
    · exact absurd fraction List.not_mem_nil
    · rcases List.mem_cons.mp fraction with point | digit
      · exact Or.inr (by simp [point])
      · exact Or.inl (written.fraction c digit)
  · cases shown : numeral.exponent with
    | none =>
      rw [shown] at exponent
      exact absurd exponent List.not_mem_nil
    | some number =>
      rw [shown, exponentText, List.mem_cons, List.mem_cons] at exponent
      rcases exponent with same | sign | digit
      · exact Or.inr (by simp [same])
      · split_ifs at sign with below
        · exact Or.inr (by simp [sign])
        · exact Or.inr (by simp [sign])
      · exact Or.inl (isDigit_padded _ _ c digit)

end Reading

/-! ## Constants -/

inductive Constant
  | null
  | exact (value : ℚ)
  | approximate (value : ℚ)
  | binary (bytes : List Nat)
  | unicode (text : List Char)
  | plain (text : List Char)

def readBytes : List Char → Option (List Nat)
  | [] => some []
  | [_] => none
  | high :: low :: rest =>
      if hexDigits.isDigit high && hexDigits.isDigit low then
        (readBytes rest).map (hexDigits.value [high, low] :: ·)
      else none

def numberConstant (numeral : Numeral) : Option Constant :=
  match numeral.exponent with
  | none => if fits numeral.whole numeral.fraction then some (.exact numeral.value) else none
  | some _ => (floatOf numeral.value).map .approximate

def readConstant : List Char → Option Constant
  | 'N' :: '\'' :: rest => (readClosed '\'' false rest).map fun text => .unicode (joinLines text)
  | '\'' :: rest => (readClosed '\'' false rest).map fun text => .plain (joinLines text)
  | '0' :: 'x' :: rest => (readBytes rest).map .binary
  | text => if text = ['N', 'U', 'L', 'L'] then some .null else (readNumeral text).bind numberConstant

theorem readConstant_text {mark : Char} (marks : mark = 'e' ∨ mark = 'E') (width : Nat) {numeral : Numeral}
    (written : numeral.Written) : readConstant (numeral.text mark width) = numberConstant numeral := by
  have foreign (c : Char) (other : c = 'N' ∨ c = '\'' ∨ c = 'x') : c ∉ numeral.text mark width := by
    intro member
    rcases marks with rfl | rfl <;> rcases other with rfl | rfl | rfl <;>
      exact absurd (mem_text written member) (by decide)
  rw [readConstant.eq_4]
  · rw [if_neg, readNumeral_text marks width written]
    · rfl
    · intro same
      exact foreign 'N' (Or.inl rfl) (by rw [same]; exact List.mem_cons_self)
  · intro rest same
    exact foreign 'N' (Or.inl rfl) (by rw [same]; exact List.mem_cons_self)
  · intro rest same
    exact foreign '\'' (Or.inr (Or.inl rfl)) (by rw [same]; exact List.mem_cons_self)
  · intro rest same
    exact foreign 'x' (Or.inr (Or.inr rfl)) (by rw [same]; simp)

theorem readConstant_unicode (text : List Char) :
    readConstant ('N' :: '\'' :: (doubled '\'' text ++ ['\''])) = some (.unicode (joinLines text)) := by
  rw [readConstant.eq_1, readClosed_doubled]
  rfl

/-- A text without quotes and backslashes is read as it stands. -/
theorem readConstant_plain {text : List Char} (unquoted : '\'' ∉ text) (unjoined : '\\' ∉ text) :
    readConstant ('\'' :: (text ++ ['\''])) = some (.plain text) := by
  have same : doubled '\'' text = text := by
    unfold doubled
    conv_rhs => rw [← List.flatMap_singleton' text]
    refine List.flatMap_congr fun c member => if_neg ?_
    rintro rfl
    exact unquoted member
  have kept : joinLines text = text := by
    rw [joinLines_eq_self_iff]
    constructor
    · exact fun inside => unjoined (inside.subset (by simp))
    · exact fun inside => unjoined (inside.subset (by simp))
  have closed := readClosed_doubled '\'' text
  rw [same] at closed
  rw [readConstant.eq_2 _, closed, Option.map_some, kept]

variable {bytes : List Nat} {milliseconds : Nat}

theorem readBytes_hex (bound : ∀ byte ∈ bytes, byte < 256) :
    readBytes (bytes.flatMap (hexDigits.numeral 2)) = some bytes := by
  induction bytes with
  | nil => rfl
  | cons byte bytes ih =>
    obtain ⟨first, others⟩ := List.forall_mem_cons.mp bound
    have digits := hexDigits.isDigit_numeral 2 byte
    have pair : hexDigits.numeral 2 byte = [hexDigits.write (byte / 16 ^ 1 % 16),
      hexDigits.write (byte / 16 ^ 0 % 16)] := rfl
    have value := hexDigits.value_numeral (show byte < 16 ^ 2 from first)
    rw [pair] at digits value
    rw [List.flatMap_cons, pair, List.cons_append, List.cons_append, List.nil_append, readBytes,
      digits _ List.mem_cons_self, digits _ (List.mem_cons_of_mem _ List.mem_cons_self), ih others, value]
    rfl

theorem readConstant_binary (bound : ∀ byte ∈ bytes, byte < 256) :
    readConstant ('0' :: 'x' :: bytes.flatMap (hexDigits.numeral 2)) = some (.binary bytes) := by
  rw [readConstant.eq_3, readBytes_hex bound]
  rfl

/-! ## Dates and times -/

/-- A day of the calendar. -/
structure Date where
  year : Nat
  month : Nat
  day : Nat
  years : 1 ≤ year ∧ year < 10000
  months : 1 ≤ month ∧ month ≤ 12
  days : 1 ≤ day ∧ day ≤ (monthLengths (isLeap year)).getD (month - 1) 0

/-- A time of the day, to a tenth of a microsecond. -/
structure Clock where
  hour : Nat
  minute : Nat
  second : Nat
  ticks : Nat
  hours : hour < 24
  minutes : minute < 60
  seconds : second < 60
  subseconds : ticks < 10 ^ 7

/-- A number of so many digits, and what stands behind it. -/
def readField (width : Nat) (text : List Char) : Option (Nat × List Char) :=
  if (text.take width).length = width ∧ (text.take width).all Char.isDigit = true then
    some (decimalDigits.value (text.take width), text.drop width)
  else none

def skip (sign : Char) : List Char → Option (List Char)
  | [] => none
  | c :: rest => if c = sign then some rest else none

def readDate (text : List Char) : Option (Date × List Char) := do
  let (year, text) ← readField 4 text
  let text ← skip '-' text
  let (month, text) ← readField 2 text
  let text ← skip '-' text
  let (day, text) ← readField 2 text
  if real : (1 ≤ year ∧ year < 10000) ∧ (1 ≤ month ∧ month ≤ 12) ∧ 1 ≤ day ∧
      day ≤ (monthLengths (isLeap year)).getD (month - 1) 0 then
    some (⟨year, month, day, real.1, real.2.1, real.2.2⟩, text)
  else none

/-- The fraction of a second, if one is written, in ticks. -/
def readTicks : List Char → Option Nat
  | [] => some 0
  | '.' :: text =>
      if isDigits text && text.length ≤ 7 then some (decimalDigits.value text * 10 ^ (7 - text.length)) else none
  | _ => none

def readClock (text : List Char) : Option Clock := do
  let (hour, text) ← readField 2 text
  let text ← skip ':' text
  let (minute, text) ← readField 2 text
  let text ← skip ':' text
  let (second, text) ← readField 2 text
  let ticks ← readTicks text
  if real : hour < 24 ∧ minute < 60 ∧ second < 60 ∧ ticks < 10 ^ 7 then
    some ⟨hour, minute, second, ticks, real.1, real.2.1, real.2.2.1, real.2.2.2⟩
  else none

theorem readField_append {width number : Nat} (bound : number < 10 ^ width) (rest : List Char) :
    readField width (decimalDigits.numeral width number ++ rest) = some (number, rest) := by
  have length := decimalDigits.length_numeral width number
  have front : (decimalDigits.numeral width number ++ rest).take width = decimalDigits.numeral width number :=
    List.take_left' length
  have back : (decimalDigits.numeral width number ++ rest).drop width = rest := List.drop_left' length
  unfold readField
  rw [front, back, if_pos ⟨length, List.all_eq_true.mpr (decimalDigits.isDigit_numeral width number)⟩,
    decimalDigits.value_numeral bound]

theorem skip_cons (sign : Char) (rest : List Char) : skip sign (sign :: rest) = some rest := if_pos rfl

/-- A day as ISO 8601 writes it. -/
def Date.text (date : Date) : List Char :=
  decimalDigits.numeral 4 date.year ++
    '-' :: (decimalDigits.numeral 2 date.month ++ '-' :: decimalDigits.numeral 2 date.day)

theorem Date.day_lt (date : Date) : date.day < 10 ^ 2 := by
  have lengths : ∀ leap : Bool, ∀ place < 12, (monthLengths leap).getD place 0 ≤ 31 := by decide
  have bound := lengths (isLeap date.year) (date.month - 1) (by have := date.months; omega)
  have days := date.days
  omega

theorem readDate_text (date : Date) (rest : List Char) : readDate (date.text ++ rest) = some (date, rest) := by
  have year : date.year < 10 ^ 4 := date.years.2
  have month : date.month < 10 ^ 2 := by
    have := date.months
    omega
  unfold readDate Date.text
  simp only [List.append_assoc, List.cons_append, readField_append year, readField_append month,
    readField_append date.day_lt, skip_cons, Option.bind_eq_bind, Option.bind_some]
  rw [dif_pos ⟨date.years, date.months, date.days⟩]

/-- A time as ISO 8601 writes it, to milliseconds. -/
def clockText (hour minute second milliseconds : Nat) : List Char :=
  decimalDigits.numeral 2 hour ++ ':' :: (decimalDigits.numeral 2 minute ++
    ':' :: (decimalDigits.numeral 2 second ++ '.' :: decimalDigits.numeral 3 milliseconds))

theorem readTicks_numeral (bound : milliseconds < 10 ^ 3) :
    readTicks ('.' :: decimalDigits.numeral 3 milliseconds) = some (milliseconds * 10 ^ 4) := by
  have length := decimalDigits.length_numeral 3 milliseconds
  have digits : isDigits (decimalDigits.numeral 3 milliseconds) = true := by
    rw [isDigits, Bool.and_eq_true, List.all_eq_true]
    exact ⟨decide_eq_true (List.ne_nil_of_length_pos (by omega)), decimalDigits.isDigit_numeral 3 milliseconds⟩
  rw [readTicks, digits, length, decimalDigits.value_numeral bound]
  rfl

theorem readClock_text {hour minute second : Nat} (hours : hour < 24) (minutes : minute < 60) (seconds : second < 60)
    (bound : milliseconds < 10 ^ 3) :
    readClock (clockText hour minute second milliseconds) =
      some ⟨hour, minute, second, milliseconds * 10 ^ 4, hours, minutes, seconds, by omega⟩ := by
  have fields : hour < 10 ^ 2 ∧ minute < 10 ^ 2 ∧ second < 10 ^ 2 := by omega
  unfold readClock clockText
  simp only [readField_append fields.1, readField_append fields.2.1, readField_append fields.2.2, skip_cons,
    readTicks_numeral bound, Option.bind_eq_bind, Option.bind_some]
  rw [dif_pos ⟨hours, minutes, seconds, by omega⟩]

def readDateTime (text : List Char) : Option (Date × Clock) := do
  let (date, text) ← readDate text
  let text ← skip 'T' text
  let clock ← readClock text
  some (date, clock)

def readDay (text : List Char) : Option Date := do
  let (date, rest) ← readDate text
  if rest = [] then some date else none

/-! ## What a column takes -/

inductive Kind
  | number
  | float
  | binary
  | text
  | date
  | time
  | datetime
  | datetimeOffset

inductive Meaning
  | null
  | number (value : ℚ)
  | binary (bytes : List Nat)
  | text (text : List Char)
  | date (date : Date)
  | time (clock : Clock) (offset : Option Int)
  | datetime (date : Date) (clock : Clock) (offset : Option Int)

/-- What a constant is in a column of a kind; a date and time without an offset is of universal time where one is kept.
-/
def convert : Kind → Constant → Option Meaning
  | _, .null => some .null
  | .number, .exact value => some (.number value)
  | .number, .approximate value => some (.number value)
  | .float, .exact value => (floatOf value).map .number
  | .float, .approximate value => some (.number value)
  | .binary, .binary bytes => some (.binary bytes)
  | .text, .unicode text => some (.text text)
  | .date, .plain text => (readDay text).map .date
  | .time, .plain text => (readClock text).map fun clock => .time clock none
  | .datetime, .plain text => (readDateTime text).map fun moment => .datetime moment.1 moment.2 none
  | .datetimeOffset, .plain text => (readDateTime text).map fun moment => .datetime moment.1 moment.2 (some 0)
  | _, _ => none

def evaluate (kind : Kind) (text : List Char) : Option Meaning := (readConstant text).bind (convert kind)

end DbaBrain.Foundation.TransactSql
