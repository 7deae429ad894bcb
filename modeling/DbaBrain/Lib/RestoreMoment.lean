import DbaBrain.Lib.Strptime

/-!
# The moment a restore is asked for

A moment is read once, by the first of five formats that reads it, and its
offset is converted: what a statement and a comparison see is the server's own
clock, which is UTC where no other offset is stated.
-/

namespace DbaBrain.Lib.RestoreMoment

open DbaBrain.Foundation.Calendar DbaBrain.Foundation.Text
open DbaBrain.Lib.Coerce DbaBrain.Lib.Stamps DbaBrain.Lib.Strptime

/-- `%Y-%m-%dT%H:%M:%S`, and what follows it. -/
def isoFormat (ending : List Directive) : List Directive :=
  [.year, .literal '-', .month, .literal '-', .day, .literal 'T', .hour, .literal ':', .minute, .literal ':', .second] ++
    ending

def formats : List (List Directive) :=
  [stampFormat [.blank, .zone], isoFormat [.zone], stampFormat [], isoFormat [],
    [.year, .literal '-', .month, .literal '-', .day, .blank, .hour, .literal ':', .minute]]

/-- The two refusals `MomentError` words, and the `OverflowError` of a conversion that leaves the calendar. -/
inductive Failure where
  | empty
  | unreadable (raw : String)
  | overflow
  deriving DecidableEq

/-- The instants of the years 1 to 9999. -/
def inCalendar (instant : Instant) : Bool := 0 ≤ instant && instant < 315537897600 * microsecondsPerSecond

def converted (reading : IsoReading) : Except Failure Instant :=
  let utc := reading.wallClock - reading.offset.getD 0
  if inCalendar utc then .ok utc else .error .overflow

/-- `parse_moment` for a server on UTC. -/
def parseMoment (text : String) : Except Failure Instant :=
  let raw := strip text
  if raw = "" then .error .empty
  else
    match formats.findSome? fun format => strptime format raw with
    | none => .error (.unreadable raw)
    | some reading => converted reading

/-- The second an instant of the calendar lies in. -/
def secondOf (instant : Instant) : Moment := Fin.ofNat 315537897600 (instant / microsecondsPerSecond).toNat

def serverClockText (text : String) : Except Failure String :=
  (parseMoment text).map fun instant => stampText (secondOf instant)

/-! ## What is read of a stamp -/

theorem secondOf_instantOf (moment : Moment) : secondOf (instantOf moment) = moment := by
  have whole : instantOf moment / microsecondsPerSecond = moment.val :=
    Int.mul_ediv_cancel _ (by decide)
  unfold secondOf
  rw [whole, Int.toNat_natCast]
  exact Fin.ofNat_val_eq_self moment

theorem inCalendar_instantOf (moment : Moment) : inCalendar (instantOf moment) = true := by
  have late : (moment.val : Int) < 315537897600 := Int.ofNat_lt.mpr moment.isLt
  have early : (0 : Int) ≤ moment.val := Int.natCast_nonneg _
  unfold inCalendar instantOf microsecondsPerSecond
  simp only [Bool.and_eq_true, decide_eq_true_eq]
  constructor
  · exact mul_nonneg early (by decide)
  · exact mul_lt_mul_of_pos_right late (by decide)

theorem converted_eq_ok {reading : IsoReading} {moment : Moment}
    (shown : reading.wallClock - reading.offset.getD 0 = instantOf moment) :
    converted reading = .ok (instantOf moment) := by
  unfold converted
  simp only [shown, inCalendar_instantOf, if_true]

theorem digit_ne (n : Nat) :
    (digit n).toLower ≠ 't' ∧ digit n ≠ 'T' ∧ digit n ≠ '.' ∧ digit n ≠ 'Z' := by
  have below : n % 10 < 10 := Nat.mod_lt _ (by decide)
  unfold digit
  generalize n % 10 = unit at below
  interval_cases unit <;> decide

theorem strip_stampText (moment : Moment) : strip (stampText moment) = stampText moment := by
  apply strip_eq_self <;> simp [toList_stampText, pad, isSpace_digit]

theorem countP_stampText (moment : Moment) : (stampText moment).toList.countP isSpace = 1 := by
  have separators : isSpace '-' = false ∧ isSpace ':' = false ∧ isSpace ' ' = true := by decide
  simp [toList_stampText, pad, isSpace_digit, separators]

theorem ne_of_mem_stampText {moment : Moment} {c : Char} (member : c ∈ (stampText moment).toList) :
    c.toLower ≠ 't' ∧ c ≠ 'T' ∧ c ≠ '.' ∧ c ≠ 'Z' := by
  rw [stampText, String.toList_ofList] at member
  rcases mem_render member with ⟨n, rfl⟩ | ⟨field, present, separator⟩
  · exact digit_ne n
  · simp only [stampShape, List.mem_cons, List.not_mem_nil, or_false] at present
    rcases present with rfl | rfl | rfl | rfl | rfl | rfl
    all_goals
      simp only [List.mem_cons, List.not_mem_nil, or_false] at separator
    all_goals
      subst separator
      decide

/-- A stamp is a moment of the server's clock. -/
theorem parseMoment_stampText (moment : Moment) : parseMoment (stampText moment) = .ok (instantOf moment) := by
  have noZone : strptime (stampFormat [.blank, .zone]) (stampText moment) = none := by
    apply strptime_eq_none_of_blanks
    rw [countP_stampText]
    decide
  have timeMark : Directive.literal 'T' ∈ isoFormat [.zone] := by decide
  have noIso : strptime (isoFormat [.zone]) (stampText moment) = none :=
    strptime_eq_none_of_literal timeMark fun c member => (ne_of_mem_stampText member).1
  have found : formats.findSome? (fun format => strptime format (stampText moment)) =
      some ⟨instantOf moment, none⟩ := by
    unfold formats
    rw [List.findSome?_cons, noZone, List.findSome?_cons, noIso, List.findSome?_cons, strptime_stampText]
  have written : stampText moment ≠ "" := by
    intro empty
    have length := stampText_length moment
    rw [empty] at length
    cases length
  unfold parseMoment
  rw [strip_stampText, if_neg written, found]
  exact converted_eq_ok (sub_zero _)

end DbaBrain.Lib.RestoreMoment
