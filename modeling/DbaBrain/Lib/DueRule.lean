import DbaBrain.Lib.Coerce

/-!
# When a unit of work is due

The rule every scheduler shares: the previous run's start, its status and the
window's three intervals decide whether the unit runs now.
-/

namespace DbaBrain.Lib.DueRule

open DbaBrain.Foundation.Text DbaBrain.Lib.Coerce

def runOnce : Int := 0

def manualOnly : Int := -1

def errorStatuses : List String := ["error", "timeout", "fail", "failed", "failure"]

/-- The intervals of a `TimeWindow`, in seconds. -/
structure TimeWindow where
  repeatInterval : Option Int
  retryInterval : Option Int
  timeout : Option Int

structure DueVerdict where
  due : Bool
  reason : String
  lastRun : Option Instant
  nextDueAt : Option Instant

/-- The columns of a run the due rule reads. -/
structure RunColumns where
  startedAt : Option String
  createdAt : Option String
  finishedAt : Option String
  status : Option String

/-- The run's start, or what stands in for it. -/
def runAnchor (fromIsoFormat : String → Option IsoReading) (row : Option RunColumns) : Option Instant :=
  row.bind fun columns =>
    [columns.startedAt, columns.createdAt, columns.finishedAt].findSome? (asUtcDatetime fromIsoFormat)

def rowStatus (row : Option RunColumns) : String :=
  match row with
  | none => ""
  | some columns => asciiLower (strip (columns.status.getD ""))

/-- `_due_grace_seconds`, in microseconds: a twentieth of the interval, at most half a minute. -/
def dueGrace (interval : Int) : Int :=
  if interval ≤ 0 then 0 else min (interval * 50000) (min (30 * microsecondsPerSecond) (interval * microsecondsPerSecond))

def repeatDue (lastRun : Option Instant) (repeatInterval : Option Int) (now : Instant) (default : Option Int) : Bool :=
  if repeatInterval = some manualOnly then false
  else
    match lastRun with
    | none => true
    | some last =>
        if repeatInterval = some runOnce then false
        else
          match repeatInterval.or default with
          | none => false
          | some interval => decide (last + (interval * microsecondsPerSecond - dueGrace interval) ≤ now)

/-- Due once `allowed` seconds have passed. -/
def elapsedVerdict (lastRun : Instant) (elapsed allowed : Int) (now : Instant) (label : String) : DueVerdict :=
  let nextDueAt := lastRun + allowed * microsecondsPerSecond
  if nextDueAt ≤ now then ⟨true, "", some lastRun, none⟩
  else ⟨false, label ++ ": " ++ toString elapsed ++ "s/" ++ toString allowed ++ "s", some lastRun, some nextDueAt⟩

/-- The scheduling rule: the verdict and its reason. -/
def explainDue (lastRun : Option Instant) (lastStatus : String) (repeatInterval retryInterval : Option Int)
    (now : Instant) (timeout : Option Int) (timeoutDisabled : Bool) (defaultRepeat : Option Int)
    (runningBlocks : Bool) : DueVerdict :=
  if repeatInterval = some manualOnly then ⟨false, "manual only: never scheduled", lastRun, none⟩
  else
    match lastRun with
    | none => ⟨true, "", none, none⟩
    | some last =>
        let status := asciiLower (strip lastStatus)
        let retry := retryInterval.getD 60
        let staleGrace := if timeoutDisabled then retry else timeout.getD 300
        let elapsed := elapsedSeconds last now
        if repeatInterval = some runOnce then
          if status ∈ errorStatuses then elapsedVerdict last elapsed retry now "retry not elapsed"
          else if status = "running" then elapsedVerdict last elapsed staleGrace now "running within timeout"
          else ⟨false, "run-once: already ran", some last, none⟩
        else if status = "running" ∧ runningBlocks = true then
          elapsedVerdict last elapsed staleGrace now "running within timeout"
        else if repeatDue (some last) repeatInterval now defaultRepeat then ⟨true, "", some last, none⟩
        else if status ∈ errorStatuses then elapsedVerdict last elapsed retry now "retry not elapsed"
        else
          match repeatInterval.or defaultRepeat with
          | none => ⟨false, "no repeat_interval and no default: never due again", some last, none⟩
          | some interval =>
              ⟨false, "interval not elapsed: " ++ toString elapsed ++ "s/" ++ toString interval ++ "s", some last,
                some (last + (interval * microsecondsPerSecond - dueGrace interval))⟩

/-- `due_from_row` for a caller that has checked the wall-clock window itself. -/
def dueFromRow (fromIsoFormat : String → Option IsoReading) (timeWindow : TimeWindow) (row : Option RunColumns)
    (now : Instant) (retryDefault timeoutDefault defaultRepeat : Option Int) (runningBlocks : Bool) : DueVerdict :=
  explainDue (runAnchor fromIsoFormat row) (rowStatus row) timeWindow.repeatInterval
    (timeWindow.retryInterval.or retryDefault) now (timeWindow.timeout.or timeoutDefault)
    (timeWindow.timeout = some 0) defaultRepeat runningBlocks

/-! ## The rule as a moment -/

/-- A moment, one before every moment, or one after all of them. -/
abbrev DueFrom := WithBot (WithTop Instant)

def fromMoment (moment : Instant) : DueFrom := ((moment : WithTop Instant) : WithBot (WithTop Instant))

def never : DueFrom := ((⊤ : WithTop Instant) : WithBot (WithTop Instant))

variable {now : Instant}

@[simp]
theorem fromMoment_le {moment : Instant} : fromMoment moment ≤ fromMoment now ↔ moment ≤ now := by
  rw [fromMoment, fromMoment, WithBot.coe_le_coe, WithTop.coe_le_coe]

@[simp]
theorem not_never_le : ¬ never ≤ fromMoment now := by
  rw [fromMoment, never, WithBot.coe_le_coe]
  exact not_le.mpr (WithTop.coe_lt_top now)

/-- From `start` on two units are due at the same moments when they are due from the same one, or both are
due by then. -/
theorem due_together_iff {start : Instant} {first second : DueFrom} :
    (∀ now, start ≤ now → (first ≤ fromMoment now ↔ second ≤ fromMoment now)) ↔
      max (fromMoment start) first = max (fromMoment start) second := by
  constructor
  · intro together
    refine eq_of_forall_ge_iff fun bound => ?_
    rw [max_le_iff, max_le_iff]
    refine and_congr_right fun reached => ?_
    induction bound using WithBot.recBotCoe with
    | bot => exact absurd (le_bot_iff.mp reached) WithBot.coe_ne_bot
    | coe bound =>
      induction bound using WithTop.recTopCoe with
      | top => exact iff_of_true (le_top : first ≤ ⊤) (le_top : second ≤ ⊤)
      | coe now => exact together now (fromMoment_le.mp reached)
  · intro same now reached
    have bounded : fromMoment start ≤ fromMoment now := fromMoment_le.mpr reached
    have first_iff : max (fromMoment start) first ≤ fromMoment now ↔ first ≤ fromMoment now :=
      max_le_iff.trans (and_iff_right bounded)
    have second_iff : max (fromMoment start) second ≤ fromMoment now ↔ second ≤ fromMoment now :=
      max_le_iff.trans (and_iff_right bounded)
    rw [← first_iff, ← second_iff, same]

def intervalEnd (last : Instant) (interval : Option Int) : DueFrom :=
  match interval with
  | none => never
  | some seconds => fromMoment (last + (seconds * microsecondsPerSecond - dueGrace seconds))

/-- From when on the unit is due: always before its first run, never when nothing starts it. -/
def dueFrom (lastRun : Option Instant) (lastStatus : String) (repeatInterval retryInterval timeout : Option Int)
    (timeoutDisabled : Bool) (defaultRepeat : Option Int) (runningBlocks : Bool) : DueFrom :=
  if repeatInterval = some manualOnly then never
  else
    match lastRun with
    | none => ⊥
    | some last =>
        let status := asciiLower (strip lastStatus)
        let retry := retryInterval.getD 60
        let staleGrace := if timeoutDisabled then retry else timeout.getD 300
        if repeatInterval = some runOnce then
          if status ∈ errorStatuses then fromMoment (last + retry * microsecondsPerSecond)
          else if status = "running" then fromMoment (last + staleGrace * microsecondsPerSecond)
          else never
        else if status = "running" ∧ runningBlocks = true then fromMoment (last + staleGrace * microsecondsPerSecond)
        else if status ∈ errorStatuses then
          min (intervalEnd last (repeatInterval.or defaultRepeat)) (fromMoment (last + retry * microsecondsPerSecond))
        else intervalEnd last (repeatInterval.or defaultRepeat)

variable {last : Instant} {repeatInterval defaultRepeat : Option Int}

theorem elapsedVerdict_due {elapsed allowed : Int} {label : String} :
    (elapsedVerdict last elapsed allowed now label).due = true ↔
      fromMoment (last + allowed * microsecondsPerSecond) ≤ fromMoment now := by
  rw [elapsedVerdict, fromMoment_le]
  split
  · rename_i passed
    simp [passed]
  · rename_i early
    simp [early]

theorem repeatDue_iff (scheduled : repeatInterval ≠ some manualOnly) (repeats : repeatInterval ≠ some runOnce) :
    repeatDue (some last) repeatInterval now defaultRepeat = true ↔
      intervalEnd last (repeatInterval.or defaultRepeat) ≤ fromMoment now := by
  rw [repeatDue, if_neg scheduled]
  simp only [if_neg repeats, intervalEnd]
  cases repeatInterval.or defaultRepeat with
  | none => simp
  | some interval => rw [fromMoment_le, decide_eq_true_eq]

section Branches

variable {last : Instant} {lastStatus : String} {repeatInterval retryInterval timeout : Option Int}
  {timeoutDisabled : Bool} {defaultRepeat : Option Int} {runningBlocks : Bool}

theorem dueFrom_once (scheduled : repeatInterval ≠ some manualOnly) (once : repeatInterval = some runOnce) :
    dueFrom (some last) lastStatus repeatInterval retryInterval timeout timeoutDisabled defaultRepeat runningBlocks =
      if asciiLower (strip lastStatus) ∈ errorStatuses then
        fromMoment (last + retryInterval.getD 60 * microsecondsPerSecond)
      else if asciiLower (strip lastStatus) = "running" then
        fromMoment (last + (if timeoutDisabled then retryInterval.getD 60 else timeout.getD 300) * microsecondsPerSecond)
      else never := by
  rw [dueFrom, if_neg scheduled]
  simp only
  rw [if_pos once]

theorem dueFrom_repeats (scheduled : repeatInterval ≠ some manualOnly) (repeats : repeatInterval ≠ some runOnce) :
    dueFrom (some last) lastStatus repeatInterval retryInterval timeout timeoutDisabled defaultRepeat runningBlocks =
      if asciiLower (strip lastStatus) = "running" ∧ runningBlocks = true then
        fromMoment (last + (if timeoutDisabled then retryInterval.getD 60 else timeout.getD 300) * microsecondsPerSecond)
      else if asciiLower (strip lastStatus) ∈ errorStatuses then
        min (intervalEnd last (repeatInterval.or defaultRepeat))
          (fromMoment (last + retryInterval.getD 60 * microsecondsPerSecond))
      else intervalEnd last (repeatInterval.or defaultRepeat) := by
  rw [dueFrom, if_neg scheduled]
  simp only
  rw [if_neg repeats]

end Branches

/-- The verdict says due from that moment on, and not before. -/
theorem explainDue_due_iff {lastRun : Option Instant} {lastStatus : String} {retryInterval timeout : Option Int}
    {timeoutDisabled : Bool} {runningBlocks : Bool} :
    (explainDue lastRun lastStatus repeatInterval retryInterval now timeout timeoutDisabled defaultRepeat
        runningBlocks).due = true ↔
      dueFrom lastRun lastStatus repeatInterval retryInterval timeout timeoutDisabled defaultRepeat runningBlocks ≤
        fromMoment now := by
  fun_cases explainDue lastRun lastStatus repeatInterval retryInterval now timeout timeoutDisabled defaultRepeat
    runningBlocks with
  | case1 lastRun manual => simp [dueFrom, manual]
  | case2 scheduled => simp [dueFrom, scheduled]
  | case3 scheduled last status retry elapsed once failed =>
    rw [elapsedVerdict_due, dueFrom_once scheduled once, if_pos failed]
  | case4 scheduled last status retry staleGrace elapsed once notFailed running =>
    rw [elapsedVerdict_due, dueFrom_once scheduled once, if_neg notFailed, if_pos running]
  | case5 scheduled last status once notFailed notRunning =>
    rw [dueFrom_once scheduled once, if_neg notFailed, if_neg notRunning]
    simp
  | case6 scheduled last status retry staleGrace elapsed repeats running =>
    rw [elapsedVerdict_due, dueFrom_repeats scheduled repeats, if_pos running]
  | case7 scheduled last status repeats free passed =>
    have ended := (repeatDue_iff scheduled repeats).mp passed
    by_cases failed : asciiLower (strip lastStatus) ∈ errorStatuses
    · rw [dueFrom_repeats scheduled repeats, if_neg free, if_pos failed]
      simp [ended]
    · rw [dueFrom_repeats scheduled repeats, if_neg free, if_neg failed]
      simp [ended]
  | case8 scheduled last status retry elapsed repeats free waiting failed =>
    have early := fun ended => waiting ((repeatDue_iff scheduled repeats).mpr ended)
    rw [elapsedVerdict_due, dueFrom_repeats scheduled repeats, if_neg free, if_pos failed, min_le_iff, or_iff_right early]
  | case9 scheduled last status repeats free waiting notFailed unstated
  | case10 scheduled last status elapsed repeats free waiting notFailed interval stated =>
    have early := fun ended => waiting ((repeatDue_iff scheduled repeats).mpr ended)
    rw [dueFrom_repeats scheduled repeats, if_neg free, if_neg notFailed]
    exact iff_of_false Bool.false_ne_true early

end DbaBrain.Lib.DueRule
