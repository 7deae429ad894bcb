import DbaBrain.Lib.Coerce

/-!
# Stamps read back

What is read of a stamp the store wrote is the moment it was written for.
-/

namespace DbaBrain.Lib.Stamps

open DbaBrain.Foundation.Calendar DbaBrain.Foundation.Text DbaBrain.Lib.Coerce

def instantOf (moment : Moment) : Instant := moment.val * microsecondsPerSecond

/-! ## Numbers -/

theorem digit_spec (n : Nat) :
    (digit n).toNat = 48 + n % 10 ∧ (digit n).isDigit = true ∧ digit n ≠ 'Z' := by
  have bound : n % 10 < 10 := Nat.mod_lt _ (by decide)
  unfold digit
  generalize n % 10 = d at bound
  interval_cases d <;> decide

theorem foldl_pad (width n : Nat) (start : Int) :
    (pad width n).foldl (fun value c => value * 10 + (c.toNat - 48 : Int)) start =
      start * 10 ^ width + (n % 10 ^ width : Nat) := by
  induction width generalizing start with
  | zero => simp [pad, Nat.mod_one]
  | succ width ih =>
    have top : n % 10 ^ (width + 1) = 10 ^ width * (n / 10 ^ width % 10) + n % 10 ^ width := by
      rw [pow_succ, Nat.mod_mul, Nat.add_comm]
    rw [pad, List.foldl_cons, ih, (digit_spec _).1, top]
    push_cast
    ring

/-- The number that fits its field is read off it. -/
theorem number_pad (width n : Nat) (fits : n < 10 ^ width) : number (pad width n) = some (n : Int) := by
  have digits : (pad width n).all Char.isDigit = true := by
    rw [List.all_eq_true]
    intro c member
    obtain ⟨m, rfl⟩ := mem_pad member
    exact (digit_spec m).2.1
  rw [number, if_pos digits, foldl_pad, zero_mul, zero_add, Nat.mod_eq_of_lt fits]

/-! ## Dates -/

theorem splitMonth_days (month : Nat) (lengths : List Nat) {day : Nat} (within : day < lengths.sum) :
    ∃ index length, (splitMonth month lengths day).1 = month + index ∧ lengths[index]? = some length ∧
      1 ≤ (splitMonth month lengths day).2 ∧ (splitMonth month lengths day).2 ≤ length ∧
      (lengths.take index).sum + ((splitMonth month lengths day).2 - 1) = day := by
  induction lengths generalizing month day with
  | nil => exact absurd within (Nat.not_lt_zero _)
  | cons length rest ih =>
    rw [List.sum_cons] at within
    unfold splitMonth
    by_cases inMonth : day < length
    · rw [if_pos inMonth]
      exact ⟨0, length, rfl, rfl, Nat.succ_pos day, inMonth, by simp⟩
    · rw [if_neg inMonth]
      obtain ⟨index, other, at_month, there, positive, le, total⟩ := ih (month + 1) (by omega : day - length < rest.sum)
      refine ⟨index + 1, other, by omega, there, positive, le, ?_⟩
      rw [List.take_succ_cons, List.sum_cons]
      omega

theorem daysBeforeYear_succ {year : Nat} (positive : 0 < year) :
    daysBeforeYear (year + 1) = daysBeforeYear year + (monthLengths (isLeap year)).sum := by
  have lengths : (monthLengths (isLeap year)).sum = if isLeap year then 366 else 365 := by
    cases isLeap year <;> rfl
  rw [lengths]
  obtain ⟨last, rfl⟩ : ∃ last, year = last + 1 := ⟨year - 1, by omega⟩
  unfold daysBeforeYear isLeap
  simp only [Nat.add_sub_cancel, Nat.succ_div, Nat.dvd_iff_mod_eq_zero]
  have era : (last + 1) % 400 = 0 → (last + 1) % 100 = 0 := by omega
  have century : (last + 1) % 100 = 0 → (last + 1) % 4 = 0 := by omega
  have fewer : last / 100 ≤ last / 4 := Nat.div_le_div_left (by decide) (by decide)
  generalize last / 4 = leaps at *
  generalize last / 100 = centuries at *
  generalize last / 400 = eras at *
  generalize (last + 1) % 4 = fourth at *
  generalize (last + 1) % 100 = hundredth at *
  generalize (last + 1) % 400 = fourHundredth at *
  by_cases inLeap : fourth = 0
  · by_cases inCentury : hundredth = 0
    · by_cases inEra : fourHundredth = 0
      · simp [inLeap, inCentury, inEra]
        omega
      · simp [inLeap, inCentury, inEra]
        omega
    · have inEra : fourHundredth ≠ 0 := fun zero => inCentury (era zero)
      simp [inLeap, inCentury, inEra]
      omega
  · have inCentury : hundredth ≠ 0 := fun zero => inLeap (century zero)
    have inEra : fourHundredth ≠ 0 := fun zero => inCentury (era zero)
    simp [inLeap, inCentury, inEra]
    omega

theorem dayOfYear_lt (day : Nat) : dayOfYear day < (monthLengths (isLeap (yearOf day))).sum := by
  have next := lt_daysBeforeYear_succ day
  rw [daysBeforeYear_succ (yearOf_pos day)] at next
  have start := daysBeforeYear_yearOf_le day
  unfold dayOfYear
  omega

theorem daysBefore_date (moment : Moment) :
    daysBefore (yearOf moment.day) moment.monthAndDay.1 moment.monthAndDay.2 = some (moment.day : Int) := by
  obtain ⟨index, length, at_month, there, positive, le, total⟩ :=
    splitMonth_days 1 (monthLengths (isLeap (yearOf moment.day))) (dayOfYear_lt moment.day)
  have year := yearOf_pos moment.day
  have start := daysBeforeYear_yearOf_le moment.day
  have same : moment.monthAndDay = splitMonth 1 (monthLengths (isLeap (yearOf moment.day))) (dayOfYear moment.day) := rfl
  rw [← same] at at_month positive le total
  unfold dayOfYear at total
  unfold daysBefore
  simp only [at_month, Int.toNat_natCast, Nat.add_sub_cancel_left, there]
  rw [if_pos ⟨by omega, by omega, by omega, by omega⟩]
  congr 1
  omega

/-! ## The whole stamp -/

theorem clock_val (moment : Moment) : (moment.day : Int) * 86400 + (moment.val / 3600 % 24 : Nat) * 3600 +
    (moment.val / 60 % 60 : Nat) * 60 + (moment.val % 60 : Nat) = moment.val := by
  have seconds := Nat.div_add_mod moment.val 60
  have minutes := Nat.div_add_mod (moment.val / 60) 60
  have hours := Nat.div_add_mod (moment.val / 3600) 24
  rw [Nat.div_div_eq_div_mul] at minutes hours
  unfold Moment.day
  generalize moment.val / 60 = m at *
  generalize moment.val / (60 * 60) = h at *
  omega

theorem numbers_pad (moment : Moment) :
    number (pad 4 (yearOf moment.day)) = some (yearOf moment.day : Int) ∧
      number (pad 2 moment.monthAndDay.1) = some (moment.monthAndDay.1 : Int) ∧
      number (pad 2 moment.monthAndDay.2) = some (moment.monthAndDay.2 : Int) ∧
      number (pad 2 (moment.val / 3600 % 24)) = some ((moment.val / 3600 % 24 : Nat) : Int) ∧
      number (pad 2 (moment.val / 60 % 60)) = some ((moment.val / 60 % 60 : Nat) : Int) ∧
      number (pad 2 (moment.val % 60)) = some ((moment.val % 60 : Nat) : Int) := by
  have date := moment.monthAndDay_le
  refine ⟨number_pad 4 _ moment.yearOf_day_lt, ?_, ?_, ?_, ?_, ?_⟩ <;> exact number_pad 2 _ (by omega)

/-- A stamp is read as the moment it was written for, in UTC. -/
theorem readStamp_isoText (moment : Moment) :
    readStamp (zuluToOffset (isoText moment)) = some ⟨instantOf moment, some 0⟩ := by
  have digits : ∀ n, (digit n = 'Z') = False := fun n => eq_false (digit_spec n).2.2
  have text : (zuluToOffset (isoText moment)).toList = pad 4 (yearOf moment.day) ++ '-' :: (pad 2 moment.monthAndDay.1 ++
      '-' :: (pad 2 moment.monthAndDay.2 ++ 'T' :: (pad 2 (moment.val / 3600 % 24) ++ ':' :: (pad 2 (moment.val / 60 % 60) ++
        ':' :: (pad 2 (moment.val % 60) ++ ['+', '0', '0', ':', '0', '0']))))) := by
    simp [zuluToOffset, isoText, stampShape, Moment.fields, render, pad, digits]
  obtain ⟨year, month, dayOfMonth, hour, minute, second⟩ := numbers_pad moment
  have zeros : number ['0', '0'] = some 0 := by decide
  have days := daysBefore_date moment
  unfold readStamp
  rw [text]
  simp only [pad, List.cons_append, List.nil_append] at year month dayOfMonth hour minute second ⊢
  simp only [year, month, dayOfMonth, hour, minute, second, days, zeros, Option.bind_eq_bind, Option.bind_some]
  have hourLt : moment.val / 3600 % 24 < 24 := Nat.mod_lt _ (by decide)
  have minuteLt : moment.val / 60 % 60 < 60 := Nat.mod_lt _ (by decide)
  have secondLt : moment.val % 60 < 60 := Nat.mod_lt _ (by decide)
  rw [if_pos ⟨Int.ofNat_lt.mpr hourLt, Int.ofNat_lt.mpr minuteLt, Int.ofNat_lt.mpr secondLt, by decide, Or.inl trivial⟩,
    if_neg (by decide), clock_val]
  rfl

structure StampReader where
  fromIsoFormat : String → Option IsoReading
  reads : ∀ moment, fromIsoFormat (zuluToOffset (isoText moment)) = some ⟨instantOf moment, some 0⟩

def stampReader : StampReader := ⟨readStamp, readStamp_isoText⟩

end DbaBrain.Lib.Stamps
