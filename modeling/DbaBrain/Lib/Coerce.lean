import DbaBrain.Foundation.Calendar
import DbaBrain.Foundation.Text

/-!
# Instants read from texts

`as_utc_datetime` over any reading of ISO texts, and the reading of the stamps
the store writes.
-/

namespace DbaBrain.Lib.Coerce

open DbaBrain.Foundation.Calendar DbaBrain.Foundation.Text

/-- Microseconds since the first of January of year 1, in UTC. -/
abbrev Instant := Int

def microsecondsPerSecond : Int := 1000000

/-- `int((later - earlier).total_seconds())`. -/
def elapsedSeconds (earlier later : Instant) : Int := (later - earlier).tdiv microsecondsPerSecond

/-- What `datetime.fromisoformat` reads: a wall clock, and its offset from UTC when the text has one. -/
structure IsoReading where
  wallClock : Int
  offset : Option Int

/-- `text.replace("Z", "+00:00")`. -/
def zuluToOffset (text : String) : String :=
  String.ofList (text.toList.flatMap fun c => if c = 'Z' then "+00:00".toList else [c])

def asUtcDatetime (fromIsoFormat : String → Option IsoReading) (value : Option String) : Option Instant :=
  let text := strip (value.getD "")
  if text = "" then none
  else (fromIsoFormat (zuluToOffset text)).map fun reading => reading.wallClock - reading.offset.getD 0

/-! ## The stamps the store writes -/

/-- The number a text of digits writes. -/
def number (digits : List Char) : Option Int :=
  if digits.all Char.isDigit then
    some (digits.foldl (fun value c => value * 10 + (c.toNat - 48 : Int)) 0)
  else none

/-- The days before a date of the calendar, when there is such a date. -/
def daysBefore (year month day : Int) : Option Int :=
  let lengths := monthLengths (isLeap year.toNat)
  match lengths[month.toNat - 1]? with
  | none => none
  | some length =>
      if 1 ≤ year ∧ 1 ≤ month ∧ 1 ≤ day ∧ day ≤ length then
        some (daysBeforeYear year.toNat + (lengths.take (month.toNat - 1)).sum + (day - 1))
      else none

/-- `fromisoformat` on `YYYY-MM-DDTHH:MM:SS` with an offset of hours and minutes. -/
def readStamp (text : String) : Option IsoReading :=
  match text.toList with
  | [y₁, y₂, y₃, y₄, '-', m₁, m₂, '-', d₁, d₂, _, h₁, h₂, ':', n₁, n₂, ':', s₁, s₂, sign, o₁, o₂, ':', p₁, p₂] => do
      let days ← daysBefore (← number [y₁, y₂, y₃, y₄]) (← number [m₁, m₂]) (← number [d₁, d₂])
      let hour ← number [h₁, h₂]
      let minute ← number [n₁, n₂]
      let second ← number [s₁, s₂]
      let offset := (← number [o₁, o₂]) * 3600 + (← number [p₁, p₂]) * 60
      if hour < 24 ∧ minute < 60 ∧ second < 60 ∧ offset < 86400 ∧ (sign = '+' ∨ sign = '-') then
        some
          { wallClock := (days * 86400 + hour * 3600 + minute * 60 + second) * microsecondsPerSecond
            offset := some ((if sign = '-' then -offset else offset) * microsecondsPerSecond) }
      else none
  | _ => none

/-- Ten seconds of a leap day's end. -/
example : (asUtcDatetime readStamp (some "2028-03-01T00:00:05Z")).bind (fun later =>
    (asUtcDatetime readStamp (some "2028-02-29T23:59:55Z")).map fun earlier => elapsedSeconds earlier later) =
      some 10 := by decide +kernel

end DbaBrain.Lib.Coerce
