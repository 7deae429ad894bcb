import DbaBrain.Lib.DueRule

/-!
# The next due moment a verdict reports

The rule that refuses a unit also names the moment it becomes due.  That
moment is the one the rule as a whole first allows, except after a failure:
the retry rule then reports the end of the retry although the interval, read
before it, may end sooner.
-/

namespace DbaBrain.Lib.NextDueAt

open DbaBrain.Foundation.Text DbaBrain.Lib.Coerce DbaBrain.Lib.DueRule

/-- What the rule is asked about a unit: its row and its window, without the moment. -/
structure Question where
  lastRun : Option Instant
  lastStatus : String
  repeatInterval : Option Int
  retryInterval : Option Int
  timeout : Option Int
  timeoutDisabled : Bool
  defaultRepeat : Option Int
  runningBlocks : Bool

namespace Question

variable {question : Question} {now moment : Instant}

def explain (question : Question) (now : Instant) : DueVerdict :=
  explainDue question.lastRun question.lastStatus question.repeatInterval question.retryInterval now question.timeout
    question.timeoutDisabled question.defaultRepeat question.runningBlocks

def dueFrom (question : Question) : DueFrom :=
  DueRule.dueFrom question.lastRun question.lastStatus question.repeatInterval question.retryInterval question.timeout
    question.timeoutDisabled question.defaultRepeat question.runningBlocks

theorem explain_due_iff : (question.explain now).due = true ↔ question.dueFrom ≤ fromMoment now := explainDue_due_iff

theorem explain_waits_iff : (question.explain now).due = false ↔ ¬question.dueFrom ≤ fromMoment now := by
  rw [← explain_due_iff, Bool.not_eq_true]

/-- The moment a refused unit is told to wait for, or never. -/
def announced (nextDueAt : Option Instant) : DueFrom :=
  match nextDueAt with
  | none => never
  | some moment => fromMoment moment

/-- A failed run whose retry is still to come when the interval, not over by now, has ended. -/
def RetryOutlastsInterval (question : Question) (now : Instant) : Prop :=
  ∃ last interval, question.lastRun = some last ∧ question.repeatInterval ≠ some manualOnly ∧
    question.repeatInterval ≠ some runOnce ∧ asciiLower (strip question.lastStatus) ∈ errorStatuses ∧
    question.repeatInterval.or question.defaultRepeat = some interval ∧
    now < last + (interval * microsecondsPerSecond - dueGrace interval) ∧
    last + (interval * microsecondsPerSecond - dueGrace interval) <
      last + question.retryInterval.getD 60 * microsecondsPerSecond

/-- What a verdict says of the moments around it, the row unchanged. -/
structure NextDueTrue (question : Question) (now : Instant) : Prop where
  announced : (question.explain now).due = false → ∀ nextDueAt, (question.explain now).nextDueAt = some nextDueAt →
    (∀ moment < nextDueAt, (question.explain moment).due = false) ∧
      ∀ moment ≥ nextDueAt, (question.explain moment).due = true
  unannounced : (question.explain now).due = false → (question.explain now).nextDueAt = none →
    ∀ moment, (question.explain moment).due = false
  stays : (question.explain now).due = true → ∀ moment ≥ now, (question.explain moment).due = true

/-- A moment named within an elapsed time is the end of it. -/
theorem elapsedVerdict_waits {last : Instant} {elapsed allowed : Int} {label : String}
    (waits : (elapsedVerdict last elapsed allowed now label).due = false) :
    announced (elapsedVerdict last elapsed allowed now label).nextDueAt =
      fromMoment (last + allowed * microsecondsPerSecond) := by
  have early : ¬last + allowed * microsecondsPerSecond ≤ now := by
    have due_iff : (elapsedVerdict last elapsed allowed now label).due = true ↔ _ := elapsedVerdict_due
    rw [← fromMoment_le, ← due_iff, Bool.not_eq_true]
    exact waits
  rw [elapsedVerdict]
  simp only [if_neg early, announced]

/-- A refused unit is told the moment it is due from, unless a retry outlasts its interval. -/
theorem announced_eq_dueFrom (retries : ¬question.RetryOutlastsInterval now) :
    (question.explain now).due = false → announced (question.explain now).nextDueAt = question.dueFrom := by
  obtain ⟨lastRun, lastStatus, repeatInterval, retryInterval, timeout, timeoutDisabled, defaultRepeat,
    runningBlocks⟩ := question
  unfold explain dueFrom
  simp only
  fun_cases explainDue lastRun lastStatus repeatInterval retryInterval now timeout timeoutDisabled defaultRepeat
    runningBlocks with
  | case1 lastRun manual =>
    intro _
    simp [DueRule.dueFrom, manual, announced]
  | case2 scheduled =>
    intro waits
    exact absurd waits Bool.true_eq_false.mp
  | case3 scheduled last status retry elapsed once failed =>
    intro waits
    rw [elapsedVerdict_waits waits, dueFrom_once scheduled once, if_pos failed]
  | case4 scheduled last status retry staleGrace elapsed once notFailed running =>
    intro waits
    rw [elapsedVerdict_waits waits, dueFrom_once scheduled once, if_neg notFailed, if_pos running]
  | case5 scheduled last status once notFailed notRunning =>
    intro _
    rw [dueFrom_once scheduled once, if_neg notFailed, if_neg notRunning, announced]
  | case6 scheduled last status retry staleGrace elapsed repeats running =>
    intro waits
    rw [elapsedVerdict_waits waits, dueFrom_repeats scheduled repeats, if_pos running]
  | case7 scheduled last status repeats free passed =>
    intro waits
    exact absurd waits Bool.true_eq_false.mp
  | case8 scheduled last status retry elapsed repeats free waiting failed =>
    intro waits
    rw [elapsedVerdict_waits waits, dueFrom_repeats scheduled repeats, if_neg free, if_pos failed, eq_comm, min_eq_right_iff]
    rw [repeatDue_iff scheduled repeats] at waiting
    cases stated : repeatInterval.or defaultRepeat with
    | none => exact WithBot.coe_le_coe.mpr le_top
    | some interval =>
      rw [stated, intervalEnd, fromMoment_le] at waiting
      rw [intervalEnd, fromMoment_le]
      by_contra sooner
      exact retries ⟨last, interval, rfl, scheduled, repeats, failed, stated, not_le.mp waiting,
        not_le.mp sooner⟩
  | case9 scheduled last status repeats free waiting notFailed unstated =>
    intro _
    rw [dueFrom_repeats scheduled repeats, if_neg free, if_neg notFailed, unstated, announced, intervalEnd]
  | case10 scheduled last status elapsed repeats free waiting notFailed interval stated =>
    intro _
    rw [dueFrom_repeats scheduled repeats, if_neg free, if_neg notFailed, stated, announced, intervalEnd]

theorem stays_due (due : (question.explain now).due = true) (later : moment ≥ now) :
    (question.explain moment).due = true :=
  explain_due_iff.mpr ((explain_due_iff.mp due).trans (fromMoment_le.mpr later))

theorem nextDueTrue_of_dueFrom
    (told : (question.explain now).due = false → announced (question.explain now).nextDueAt = question.dueFrom) :
    question.NextDueTrue now where
  announced waits nextDueAt named := by
    have same := told waits
    rw [named, Question.announced] at same
    constructor
    · intro moment before
      rw [explain_waits_iff, ← same, fromMoment_le]
      exact not_le.mpr before
    · intro moment after
      rw [explain_due_iff, ← same, fromMoment_le]
      exact after
  unannounced waits unnamed moment := by
    have same := told waits
    rw [unnamed, Question.announced] at same
    rw [explain_waits_iff, ← same]
    exact not_never_le
  stays due moment later := stays_due due later

/-- What such a retry makes of the verdict: it names the retry's end, and the unit is due at the interval's. -/
theorem retryOutlasts_verdict {last : Instant} {interval : Int} (ran : question.lastRun = some last)
    (scheduled : question.repeatInterval ≠ some manualOnly) (repeats : question.repeatInterval ≠ some runOnce)
    (failed : asciiLower (strip question.lastStatus) ∈ errorStatuses)
    (stated : question.repeatInterval.or question.defaultRepeat = some interval)
    (waiting : now < last + (interval * microsecondsPerSecond - dueGrace interval))
    (sooner : last + (interval * microsecondsPerSecond - dueGrace interval) <
      last + question.retryInterval.getD 60 * microsecondsPerSecond) :
    (question.explain now).due = false ∧
      (question.explain now).nextDueAt = some (last + question.retryInterval.getD 60 * microsecondsPerSecond) ∧
      question.dueFrom = fromMoment (last + (interval * microsecondsPerSecond - dueGrace interval)) := by
  have free : ¬(asciiLower (strip question.lastStatus) = "running" ∧ question.runningBlocks = true) := by
    rintro ⟨running, _⟩
    rw [running] at failed
    exact absurd failed (by decide)
  have dueAt : question.dueFrom = fromMoment (last + (interval * microsecondsPerSecond - dueGrace interval)) := by
    rw [dueFrom, ran, dueFrom_repeats scheduled repeats, if_neg free, if_pos failed, stated, intervalEnd, min_eq_left_iff,
      fromMoment_le]
    exact sooner.le
  have unrepeated : ¬repeatDue (some last) question.repeatInterval now question.defaultRepeat = true := by
    rw [repeatDue_iff scheduled repeats, stated, intervalEnd, fromMoment_le]
    exact not_le.mpr waiting
  have early : ¬last + question.retryInterval.getD 60 * microsecondsPerSecond ≤ now :=
    not_le.mpr (waiting.trans sooner)
  refine ⟨?_, ?_, dueAt⟩
  · rw [explain_waits_iff, dueAt, fromMoment_le]
    exact not_le.mpr waiting
  · rw [explain, explainDue.eq_def, if_neg scheduled, ran]
    simp only [if_neg repeats, if_neg free, if_neg unrepeated, if_pos failed, elapsedVerdict, if_neg early]

/-- Between the interval's end and the retry's the verdict's moment is still to come and the unit is due. -/
theorem not_nextDueTrue_of_outlasts (outlasts : question.RetryOutlastsInterval now) : ¬question.NextDueTrue now := by
  intro told
  obtain ⟨last, interval, ran, scheduled, repeats, failed, stated, waiting, sooner⟩ := outlasts
  obtain ⟨waits, named, dueAt⟩ := retryOutlasts_verdict ran scheduled repeats failed stated waiting sooner
  have refused := (told.announced waits _ named).1 _ sooner
  rw [explain_waits_iff, dueAt] at refused
  exact refused le_rfl

/-- The moment a verdict reports is the true one exactly when no retry outlasts the interval. -/
theorem nextDueTrue_iff (question : Question) (now : Instant) :
    question.NextDueTrue now ↔ ¬question.RetryOutlastsInterval now := by
  constructor
  · intro told outlasts
    exact not_nextDueTrue_of_outlasts outlasts told
  · intro retries
    exact nextDueTrue_of_dueFrom (announced_eq_dueFrom retries)

/-- A minute's interval and the default retry: the verdict says a minute, the unit is due three seconds before. -/
theorem failed_minute_is_due_before_it_says :
    ¬(Question.mk (some 0) "error" (some 60) none none false none true).NextDueTrue 0 :=
  not_nextDueTrue_of_outlasts
    ⟨0, 60, rfl, by decide, by decide, by decide, rfl, by decide, by decide⟩

end Question

end DbaBrain.Lib.NextDueAt
