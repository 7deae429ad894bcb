import Mathlib

/-!
# Calendar moments and their fixed-width texts

A moment is a whole second of the proleptic Gregorian calendar, counted from
the first second of year 1.  Its date is computed by cycles of 400, 100, 4 and
1 years.  A text stamp writes the six calendar fields in fixed width, so the
text order of two stamps is the order of the moments they denote.
-/

namespace DbaBrain.Foundation.Calendar

/-! ## Fixed-width decimal fields -/

def digit (n : Nat) : Char := Char.ofNat (48 + n % 10)

/-- The `width` lowest decimal digits of `n`, most significant first. -/
def pad : Nat → Nat → List Char
  | 0, _ => []
  | width + 1, n => digit (n / 10 ^ width) :: pad width n

theorem pad_length (width n : Nat) : (pad width n).length = width := by
  induction width with
  | zero => rfl
  | succ width ih => rw [pad, List.length_cons, ih]

theorem mem_pad {width n : Nat} {c : Char} (member : c ∈ pad width n) : ∃ m, c = digit m := by
  induction width with
  | zero => cases member
  | succ width ih =>
    obtain same | later := List.mem_cons.mp member
    · exact ⟨_, same⟩
    · exact ih later

theorem digit_lt {m n : Nat} (less : m % 10 < n % 10) : digit m < digit n := by
  have bound : n % 10 < 10 := Nat.mod_lt _ (by decide)
  unfold digit
  generalize m % 10 = a at less
  generalize n % 10 = b at less bound
  interval_cases b <;> interval_cases a <;> decide

theorem pad_mod (width n : Nat) : pad width (n % 10 ^ width) = pad width n := by
  induction width generalizing n with
  | zero => rfl
  | succ width ih =>
    have top : n % 10 ^ (width + 1) / 10 ^ width % 10 = n / 10 ^ width % 10 := by
      rw [pow_succ, Nat.mod_mul_right_div_self, Nat.mod_mod]
    have rest : n % 10 ^ (width + 1) % 10 ^ width = n % 10 ^ width :=
      Nat.mod_mod_of_dvd n (pow_dvd_pow 10 (Nat.le_succ width))
    rw [pad, pad, digit, digit, top, ← ih, rest, ih]

/-- Two fields of one width compare as texts the way their numbers compare. -/
theorem pad_lt {width m n : Nat} (bound : n < 10 ^ width) (less : m < n) : pad width m < pad width n := by
  induction width generalizing m n with
  | zero => omega
  | succ width ih =>
    have positive : 0 < 10 ^ width := Nat.pow_pos (by decide)
    have topBound : n / 10 ^ width < 10 := by
      rw [Nat.div_lt_iff_lt_mul positive, ← pow_succ']
      exact bound
    have topLe : m / 10 ^ width ≤ n / 10 ^ width := Nat.div_le_div_right less.le
    rw [pad, pad]
    rcases Nat.lt_or_eq_of_le topLe with topLess | topSame
    · apply List.Lex.rel
      apply digit_lt
      rw [Nat.mod_eq_of_lt (topLess.trans topBound), Nat.mod_eq_of_lt topBound]
      exact topLess
    · have restLess : m % 10 ^ width < n % 10 ^ width := by
        have decM := Nat.div_add_mod m (10 ^ width)
        have decN := Nat.div_add_mod n (10 ^ width)
        rw [topSame] at decM
        omega
      rw [topSame]
      apply List.Lex.cons
      rw [← pad_mod width m, ← pad_mod width n]
      exact ih (Nat.mod_lt _ positive) restLess

/-! ## Texts made of fixed-width fields -/

/-- One field of a stamp: its width, and the literal text after it. -/
structure Field where
  width : Nat
  after : List Char

def render : List Field → List Nat → List Char
  | [], _ => []
  | _ :: _, [] => []
  | field :: shape, value :: values => pad field.width value ++ field.after ++ render shape values

theorem lex_append_of_lt {first second tail tail' : List Char} (less : first < second)
    (same : first.length = second.length) : first ++ tail < second ++ tail' := by
  induction first generalizing second with
  | nil =>
    cases second with
    | nil => exact absurd less (List.lt_irrefl [])
    | cons head rest => cases same
  | cons head rest ih =>
    cases second with
    | nil => cases same
    | cons head' rest' =>
      cases less with
      | rel headLess => exact List.Lex.rel headLess
      | cons restLess => exact List.Lex.cons (ih restLess (Nat.succ.inj same))

def Fits : List Field → List Nat → Prop
  | [], values => values = []
  | _ :: _, [] => False
  | field :: shape, value :: values => value < 10 ^ field.width ∧ Fits shape values

theorem render_lt {shape : List Field} {first second : List Nat} (fits : Fits shape first)
    (fits' : Fits shape second) (less : first < second) : render shape first < render shape second := by
  induction shape generalizing first second with
  | nil =>
    rw [fits, fits'] at less
    exact absurd less (List.lt_irrefl [])
  | cons field shape ih =>
    cases first with
    | nil => exact fits.elim
    | cons value values =>
      cases second with
      | nil => exact fits'.elim
      | cons value' values' =>
        rw [render, render, List.append_assoc, List.append_assoc]
        cases less with
        | rel valueLess =>
          exact lex_append_of_lt (pad_lt fits'.1 valueLess) (by rw [pad_length, pad_length])
        | cons restLess =>
          exact List.append_left_lt (List.append_left_lt (ih fits.2 fits'.2 restLess))

/-! ## Dates -/

def isLeap (year : Nat) : Bool := year % 4 == 0 && (year % 100 != 0 || year % 400 == 0)

/-- Days of the years 1 to `year - 1`. -/
def daysBeforeYear (year : Nat) : Nat :=
  (year - 1) * 365 + (year - 1) / 4 - (year - 1) / 100 + (year - 1) / 400

def monthLengths (leap : Bool) : List Nat :=
  [31, if leap then 29 else 28, 31, 30, 31, 30, 31, 31, 30, 31, 30, 31]

/-- The month and the day of month of the `day`-th day (from 0) of months `month`, `month + 1`, ... -/
def splitMonth : Nat → List Nat → Nat → Nat × Nat
  | month, [], day => (month, day + 1)
  | month, length :: rest, day =>
      if day < length then (month, day + 1) else splitMonth (month + 1) rest (day - length)

/-- A day number split by the 400, 100, 4 and 1 year cycles of the calendar. -/
structure Cycles where
  eras : Nat
  centuries : Nat
  leapCycles : Nat
  years : Nat
  days : Nat

/-- The last day of a leap cycle, and of an era, stays in the year before. -/
def cyclesOf (day : Nat) : Cycles :=
  let inEra := day % 146097
  let centuries := min (inEra / 36524) 3
  let inCentury := inEra - centuries * 36524
  let inCycle := inCentury % 1461
  let years := min (inCycle / 365) 3
  ⟨day / 146097, centuries, inCentury / 1461, years, inCycle - years * 365⟩

def Cycles.year (cycles : Cycles) : Nat :=
  cycles.eras * 400 + cycles.centuries * 100 + cycles.leapCycles * 4 + cycles.years + 1

/-- The year of day number `day`, day 0 being the first of January of year 1. -/
def yearOf (day : Nat) : Nat := (cyclesOf day).year

def dayOfYear (day : Nat) : Nat := day - daysBeforeYear (yearOf day)

/-- The bounds every split satisfies: a leftover day 365 only ends a leap year. -/
structure Cycles.Bounded (cycles : Cycles) : Prop where
  centuries_le : cycles.centuries ≤ 3
  leapCycles_le : cycles.leapCycles ≤ 24
  years_le : cycles.years ≤ 3
  days_le : cycles.days ≤ 365
  last_day : cycles.days = 365 → cycles.years = 3 ∧ (cycles.leapCycles = 24 → cycles.centuries = 3)

theorem cyclesOf_bounded (day : Nat) : (cyclesOf day).Bounded := by
  unfold cyclesOf
  refine ⟨?_, ?_, ?_, ?_, ?_⟩
  · exact Nat.min_le_right _ _
  · dsimp only
    omega
  · exact Nat.min_le_right _ _
  · dsimp only
    omega
  · dsimp only
    omega

theorem cyclesOf_days (day : Nat) :
    day = (cyclesOf day).eras * 146097 + (cyclesOf day).centuries * 36524 +
      (cyclesOf day).leapCycles * 1461 + (cyclesOf day).years * 365 + (cyclesOf day).days := by
  unfold cyclesOf
  dsimp only
  omega

theorem Cycles.daysBeforeYear_eq {cycles : Cycles} (bounded : cycles.Bounded) :
    daysBeforeYear cycles.year = cycles.eras * 146097 + cycles.centuries * 36524 +
      cycles.leapCycles * 1461 + cycles.years * 365 := by
  obtain ⟨centuries_le, leapCycles_le, years_le, -, -⟩ := bounded
  have fourth : (cycles.year - 1) / 4 = cycles.eras * 100 + cycles.centuries * 25 + cycles.leapCycles := by
    unfold year
    omega
  have hundredth : (cycles.year - 1) / 100 = cycles.eras * 4 + cycles.centuries := by
    unfold year
    omega
  have era : (cycles.year - 1) / 400 = cycles.eras := by
    unfold year
    omega
  rw [daysBeforeYear, fourth, hundredth, era, year]
  omega

theorem Cycles.daysBeforeYear_succ {cycles : Cycles} (bounded : cycles.Bounded) :
    daysBeforeYear cycles.year + cycles.days < daysBeforeYear (cycles.year + 1) := by
  have before := cycles.daysBeforeYear_eq bounded
  obtain ⟨centuries_le, leapCycles_le, years_le, days_le, last_day⟩ := bounded
  have after : daysBeforeYear (cycles.year + 1) =
      cycles.year * 365 + cycles.year / 4 - cycles.year / 100 + cycles.year / 400 := rfl
  have value : cycles.year = cycles.eras * 400 + cycles.centuries * 100 + cycles.leapCycles * 4 +
      cycles.years + 1 := rfl
  by_cases last : cycles.days = 365
  · obtain ⟨fourthYear, eraEnd⟩ := last_day last
    have fourth : cycles.year / 4 = cycles.eras * 100 + cycles.centuries * 25 + cycles.leapCycles + 1 := by
      omega
    by_cases centuryEnd : cycles.leapCycles = 24
    · have lastCentury := eraEnd centuryEnd
      have hundredth : cycles.year / 100 = cycles.eras * 4 + 4 := by omega
      have era : cycles.year / 400 = cycles.eras + 1 := by omega
      omega
    · have hundredth : cycles.year / 100 = cycles.eras * 4 + cycles.centuries := by omega
      have era : cycles.year / 400 = cycles.eras := by omega
      omega
  · have ordinary : daysBeforeYear cycles.year + 365 ≤ daysBeforeYear (cycles.year + 1) := by
      clear before
      unfold daysBeforeYear
      generalize cycles.year = year at value
      omega
    omega

theorem yearOf_pos (day : Nat) : 0 < yearOf day := Nat.succ_pos _

theorem daysBeforeYear_yearOf (day : Nat) :
    daysBeforeYear (yearOf day) + (cyclesOf day).days = day := by
  rw [yearOf, Cycles.daysBeforeYear_eq (cyclesOf_bounded day)]
  exact (cyclesOf_days day).symm

theorem daysBeforeYear_yearOf_le (day : Nat) : daysBeforeYear (yearOf day) ≤ day := by
  have split := daysBeforeYear_yearOf day
  omega

theorem lt_daysBeforeYear_succ (day : Nat) : day < daysBeforeYear (yearOf day + 1) := by
  have split := daysBeforeYear_yearOf day
  have next := Cycles.daysBeforeYear_succ (cyclesOf_bounded day)
  rw [← yearOf] at next
  omega

theorem daysBeforeYear_mono : Monotone daysBeforeYear := by
  apply monotone_nat_of_le_succ
  intro year
  unfold daysBeforeYear
  omega

theorem yearOf_mono {first second : Nat} (le : first ≤ second) : yearOf first ≤ yearOf second := by
  by_contra later
  have passed := daysBeforeYear_mono (Nat.succ_le_of_lt (Nat.lt_of_not_le later))
  have low := daysBeforeYear_yearOf_le first
  have high := lt_daysBeforeYear_succ second
  simp only [Nat.succ_eq_add_one] at passed
  omega

theorem dayOfYear_le (day : Nat) : dayOfYear day ≤ 365 := by
  have split := daysBeforeYear_yearOf day
  have bound := (cyclesOf_bounded day).days_le
  unfold dayOfYear
  omega

theorem le_splitMonth (month : Nat) (lengths : List Nat) (day : Nat) :
    month ≤ (splitMonth month lengths day).1 := by
  induction lengths generalizing month day with
  | nil => exact Nat.le_refl _
  | cons length rest ih =>
    unfold splitMonth
    split
    · exact Nat.le_refl _
    · exact (Nat.le_succ month).trans (ih (month + 1) (day - length))

theorem splitMonth_le (month : Nat) (lengths : List Nat) (day : Nat) :
    (splitMonth month lengths day).1 ≤ month + lengths.length := by
  induction lengths generalizing month day with
  | nil => exact Nat.le_refl _
  | cons length rest ih =>
    unfold splitMonth
    split
    · exact Nat.le_add_right _ _
    · have bound := ih (month + 1) (day - length)
      rw [List.length_cons]
      omega

theorem splitMonth_day_le {bound : Nat} (positive : 0 < bound) (month : Nat) {lengths : List Nat} {day : Nat}
    (lengthsLe : ∀ length ∈ lengths, length ≤ bound) (inYear : day ≤ lengths.sum) :
    (splitMonth month lengths day).2 ≤ bound := by
  induction lengths generalizing month day with
  | nil =>
    rw [List.sum_nil] at inYear
    rw [splitMonth]
    omega
  | cons length rest ih =>
    rw [List.sum_cons] at inYear
    unfold splitMonth
    split
    · have lengthLe := lengthsLe length List.mem_cons_self
      dsimp only
      omega
    · exact ih (month + 1) (fun other member => lengthsLe other (List.mem_cons_of_mem _ member)) (by omega)

theorem splitMonth_lt (month : Nat) (lengths : List Nat) {day day' : Nat} (later : day < day') :
    (splitMonth month lengths day).1 < (splitMonth month lengths day').1 ∨
      (splitMonth month lengths day).1 = (splitMonth month lengths day').1 ∧
        (splitMonth month lengths day).2 < (splitMonth month lengths day').2 := by
  induction lengths generalizing month day day' with
  | nil => exact Or.inr ⟨rfl, Nat.succ_lt_succ later⟩
  | cons length rest ih =>
    by_cases inMonth' : day' < length
    · have inMonth : day < length := later.trans inMonth'
      rw [splitMonth, splitMonth, if_pos inMonth, if_pos inMonth']
      exact Or.inr ⟨rfl, Nat.succ_lt_succ later⟩
    · by_cases inMonth : day < length
      · rw [splitMonth, splitMonth, if_pos inMonth, if_neg inMonth']
        exact Or.inl (Nat.lt_of_succ_le (le_splitMonth (month + 1) rest (day' - length)))
      · rw [splitMonth, splitMonth, if_neg inMonth, if_neg inMonth']
        exact ih (month + 1) (by omega)

/-! ## Moments -/

/-- A whole second of the years 1 to 9999. -/
abbrev Moment := Fin 315537897600

instance momentsNeZero : NeZero 315537897600 := ⟨by decide⟩

namespace Moment

def day (moment : Moment) : Nat := moment.val / 86400

def monthAndDay (moment : Moment) : Nat × Nat :=
  splitMonth 1 (monthLengths (isLeap (yearOf moment.day))) (dayOfYear moment.day)

/-- Year, month, day, hour, minute and second. -/
def fields (moment : Moment) : List Nat :=
  [yearOf moment.day, moment.monthAndDay.1, moment.monthAndDay.2,
    moment.val / 3600 % 24, moment.val / 60 % 60, moment.val % 60]

/-- The moment `span` seconds later, or nothing outside the years 1 to 9999. -/
def shift (moment : Moment) (span : Int) : Option Moment :=
  if inRange : 0 ≤ moment.val + span ∧ moment.val + span < 315537897600 then
    some ⟨(moment.val + span).toNat, by omega⟩
  else none

/-- Seconds since the first of January 1970. -/
def epoch (moment : Moment) : ℚ := moment.val - 62135596800

theorem epoch_le_iff (first second : Moment) : first.epoch ≤ second.epoch ↔ first ≤ second := by
  simp [epoch]

theorem yearOf_day_lt (moment : Moment) : yearOf moment.day < 10000 := by
  by_contra tooLate
  have started := daysBeforeYear_mono (Nat.le_of_not_lt tooLate)
  have total : daysBeforeYear 10000 = 3652059 := rfl
  have low := daysBeforeYear_yearOf_le moment.day
  have inRange := moment.isLt
  unfold day at *
  omega

theorem monthAndDay_le (moment : Moment) : moment.monthAndDay.1 ≤ 13 ∧ moment.monthAndDay.2 ≤ 31 := by
  constructor
  · exact splitMonth_le 1 (monthLengths (isLeap (yearOf moment.day))) (dayOfYear moment.day)
  · have inYear := dayOfYear_le moment.day
    unfold monthAndDay
    apply splitMonth_day_le (by decide)
    · cases isLeap (yearOf moment.day) <;> decide
    · apply inYear.trans
      cases isLeap (yearOf moment.day) <;> decide

theorem fields_lt {first second : Moment} (later : first < second) : first.fields < second.fields := by
  have seconds : first.val < second.val := later
  have dayLe : first.day ≤ second.day := Nat.div_le_div_right seconds.le
  rcases Nat.lt_or_eq_of_le (yearOf_mono dayLe) with yearLess | yearSame
  · exact List.Lex.rel yearLess
  · unfold fields
    rw [yearSame]
    apply List.Lex.cons
    rcases Nat.lt_or_eq_of_le dayLe with dayLess | daySame
    · have inYear : dayOfYear first.day < dayOfYear second.day := by
        have low := daysBeforeYear_yearOf_le first.day
        unfold dayOfYear
        rw [yearSame] at low ⊢
        omega
      have split := splitMonth_lt 1 (monthLengths (isLeap (yearOf second.day))) inYear
      unfold monthAndDay
      rw [yearSame]
      rcases split with monthLess | ⟨monthSame, dayLess⟩
      · exact List.Lex.rel monthLess
      · rw [monthSame]
        exact List.Lex.cons (List.Lex.rel dayLess)
    · have sameDate : first.monthAndDay = second.monthAndDay := by
        unfold monthAndDay
        rw [daySame]
      rw [sameDate]
      apply List.Lex.cons
      apply List.Lex.cons
      unfold day at daySame
      by_cases hourSame : first.val / 3600 % 24 = second.val / 3600 % 24
      · rw [hourSame]
        apply List.Lex.cons
        by_cases minuteSame : first.val / 60 % 60 = second.val / 60 % 60
        · rw [minuteSame]
          apply List.Lex.cons
          exact List.Lex.rel (by omega)
        · exact List.Lex.rel (by omega)
      · exact List.Lex.rel (by omega)

end Moment

/-! ## Stamps -/

def stampShape (separator : Char) (ending : List Char) : List Field :=
  [⟨4, ['-']⟩, ⟨2, ['-']⟩, ⟨2, [separator]⟩, ⟨2, [':']⟩, ⟨2, [':']⟩, ⟨2, ending⟩]

theorem fits_fields (separator : Char) (ending : List Char) (moment : Moment) :
    Fits (stampShape separator ending) moment.fields := by
  have date := moment.monthAndDay_le
  have year := moment.yearOf_day_lt
  unfold stampShape Moment.fields
  refine ⟨year, ?_, ?_, ?_, ?_, ?_, rfl⟩ <;> dsimp only <;> omega

/-- `YYYY-MM-DD HH:MM:SS`. -/
def stampText (moment : Moment) : String := String.ofList (render (stampShape ' ' []) moment.fields)

/-- `YYYY-MM-DDTHH:MM:SSZ`. -/
def isoText (moment : Moment) : String := String.ofList (render (stampShape 'T' ['Z']) moment.fields)

theorem stampText_strictMono : StrictMono stampText := by
  intro first second later
  rw [String.lt_iff_toList_lt, stampText, stampText, String.toList_ofList, String.toList_ofList]
  exact render_lt (fits_fields _ _ first) (fits_fields _ _ second) (Moment.fields_lt later)

/-- The characters of a stamp: digits and its separators. -/
theorem mem_render {shape : List Field} {values : List Nat} {c : Char} (member : c ∈ render shape values) :
    (∃ n, c = digit n) ∨ ∃ field ∈ shape, c ∈ field.after := by
  induction shape generalizing values with
  | nil => cases values <;> cases member
  | cons field shape ih =>
    cases values with
    | nil => cases member
    | cons value values =>
      simp only [render, List.mem_append] at member
      obtain (inPad | inAfter) | inRest := member
      · exact Or.inl (mem_pad inPad)
      · exact Or.inr ⟨field, List.mem_cons_self, inAfter⟩
      · obtain isDigit | ⟨other, present, inOther⟩ := ih inRest
        · exact Or.inl isDigit
        · exact Or.inr ⟨other, List.mem_cons_of_mem _ present, inOther⟩

theorem stampText_length (moment : Moment) : (stampText moment).toList.length = 19 := by
  simp [stampText, stampShape, Moment.fields, render, pad_length]

example : stampText 63844804801 = "2024-02-29 12:00:01" := by decide
example : isoText 315537897599 = "9999-12-31T23:59:59Z" := by decide

end DbaBrain.Foundation.Calendar
