import DbaBrain.Lib.DueRule
import DbaBrain.Lib.Stamps
import DbaBrain.Metrics.FailureGrading

/-!
# When a metric is due again

The newest row of a target and a metric, and the newest that is no failure,
say when it is due: its interval after a success, its retry interval after a
failure.  Both are read from the table the archive takes its rows from.
-/

namespace DbaBrain.Metrics.DueAfterFailure

open DbaBrain.Foundation.Calendar DbaBrain.Foundation.Text DbaBrain.Lib.Coerce DbaBrain.Lib.DueRule DbaBrain.Lib.Stamps DbaBrain.Db.MetricStore
  DbaBrain.Metrics.FailureGrading

/-! ## The due rule -/

/-- `_repeat_interval_for`; `path` is the file the metric resolves to on the target, an error when it cannot. -/
def repeatIntervalFor (metric : MetricDefinition) (path : Except String (Option String)) : Nat :=
  match path with
  | .error _ => metric.intervalSeconds
  | .ok path =>
      match metric.variants.find? fun variant => path = some variant.path && variant.repeatInterval.isSome with
      | none => metric.intervalSeconds
      | some variant => variant.repeatInterval.getD metric.intervalSeconds

/-- The newest row is newer than the newest success, or nothing ever succeeded. -/
def lastErrored (last : String) (success : Option String) : Bool :=
  match success with
  | none => true
  | some success => decide (success < last)

/-- `_is_metric_due`; nothing when the newest time is no instant. -/
def isMetricDue (fromIsoFormat : String → Option IsoReading) (last success : Option String)
    (repeatInterval retryInterval : Nat) (now : Instant) : Option Bool :=
  match last with
  | none => some true
  | some last => do
      let reading ← fromIsoFormat (zuluToOffset last)
      let offset ← reading.offset
      some (explainDue (some (reading.wallClock - offset)) (if lastErrored last success then "error" else "done")
        (some repeatInterval) (some retryInterval) now none false none true).due

def metricDue (fromIsoFormat : String → Option IsoReading) (path : Except String (Option String))
    (metric : MetricDefinition) (targetId : String) (store : Store) (now : Instant) : Option Bool :=
  isMetricDue fromIsoFormat (latestResultTime store targetId metric.metricCode)
    (latestSuccessfulResultTime store targetId metric.metricCode) (repeatIntervalFor metric path)
    metric.retryIntervalSeconds now

/-- The interval after the collection has passed; one that repeats never has none. -/
def RepeatPassed (last : Instant) (repeatInterval : Nat) (now : Instant) : Prop :=
  repeatInterval ≠ 0 ∧ last + (repeatInterval * microsecondsPerSecond - dueGrace repeatInterval) ≤ now

section Rule

variable {last now : Instant} {repeatInterval retryInterval : Nat}

theorem intervalEnd_le : intervalEnd last (some (repeatInterval : Int)) ≤ fromMoment now ↔
    last + (repeatInterval * microsecondsPerSecond - dueGrace repeatInterval) ≤ now := by
  rw [intervalEnd, fromMoment_le]

theorem scheduled (repeatInterval : Nat) : ¬some (repeatInterval : Int) = some manualOnly := by
  intro manual
  have negative : (repeatInterval : Int) = -1 := Option.some.inj manual
  omega

theorem runOnce_iff : some (repeatInterval : Int) = some runOnce ↔ repeatInterval = 0 := by
  rw [Option.some.injEq, runOnce]
  omega

/-- After a success only the interval counts. -/
theorem done_due_iff : (explainDue (some last) "done" (some repeatInterval) (some retryInterval) now none false none
    true).due = true ↔ RepeatPassed last repeatInterval now := by
  rw [explainDue_due_iff, dueFrom, if_neg (scheduled repeatInterval)]
  have notFailed : asciiLower (strip "done") ∉ errorStatuses := by decide
  have notRunning : asciiLower (strip "done") ≠ "running" := by decide
  simp only [runOnce_iff, notFailed, notRunning, if_false, false_and, RepeatPassed]
  by_cases once : repeatInterval = 0
  · rw [if_pos once]
    exact iff_of_false not_never_le fun passed => passed.1 once
  · rw [if_neg once, Option.or_none, intervalEnd_le]
    exact (and_iff_right once).symm

/-- After a failure the retry interval is enough. -/
theorem error_due_iff : (explainDue (some last) "error" (some repeatInterval) (some retryInterval) now none false none
    true).due = true ↔
      RepeatPassed last repeatInterval now ∨ last + retryInterval * microsecondsPerSecond ≤ now := by
  rw [explainDue_due_iff, dueFrom, if_neg (scheduled repeatInterval)]
  have failed : asciiLower (strip "error") ∈ errorStatuses := by decide
  have notRunning : asciiLower (strip "error") ≠ "running" := by decide
  simp only [runOnce_iff, failed, notRunning, if_true, if_false, false_and, RepeatPassed, Option.getD_some]
  by_cases once : repeatInterval = 0
  · rw [if_pos once, fromMoment_le]
    exact (or_iff_right fun passed => passed.1 once).symm
  · rw [if_neg once, Option.or_none, min_le_iff, intervalEnd_le, fromMoment_le, and_iff_right once]

/-- Of a written stamp the rule answers by the two intervals. -/
theorem isMetricDue_isoText (reader : StampReader) (collectedAt : Moment) (success : Option String) :
    isMetricDue reader.fromIsoFormat (some (isoText collectedAt)) success repeatInterval retryInterval now = some true ↔
      RepeatPassed (instantOf collectedAt) repeatInterval now ∨
        lastErrored (isoText collectedAt) success = true ∧
          instantOf collectedAt + retryInterval * microsecondsPerSecond ≤ now := by
  unfold isMetricDue
  simp only [reader.reads, Option.bind_eq_bind, Option.bind_some, sub_zero, Option.some.injEq]
  cases lastErrored (isoText collectedAt) success with
  | true =>
    rw [if_pos rfl, error_due_iff]
    simp only [true_and]
  | false =>
    rw [if_neg Bool.false_ne_true, done_due_iff]
    simp only [Bool.false_eq_true, false_and, or_false]

end Rule

/-! ## The newest times -/

section Newest

variable {rows : List MetricRow} {text last targetId metricCode : String} {store : Store}

theorem newest_time_iff : (newest rows).map (fun row => row.collectedAt) = some text ↔
    (∃ row ∈ rows, row.collectedAt = text) ∧ ∀ row ∈ rows, row.collectedAt ≤ text := by
  have first : ∀ row ∈ newest rows, row ∈ rows ∧ ∀ other ∈ rows, other.collectedAt ≤ row.collectedAt := by
    intro row found
    refine ⟨List.argmax_mem found, fun other member => ?_⟩
    rcases (Prod.Lex.toLex_le_toLex).mp (List.le_of_mem_argmax member found) with later | ⟨same, _⟩
    · exact later.le
    · exact same.le
  constructor
  · intro found
    obtain ⟨row, isNewest, rfl⟩ := Option.map_eq_some_iff.mp found
    exact ⟨⟨row, (first row isNewest).1, rfl⟩, (first row isNewest).2⟩
  · rintro ⟨⟨row, member, rfl⟩, bound⟩
    cases found : newest rows with
    | none =>
      rw [newest, List.argmax_eq_none] at found
      rw [found] at member
      cases member
    | some other =>
      obtain ⟨among, above⟩ := first other found
      exact congrArg some (le_antisymm (bound other among) (above row member))

theorem newest_time_none : (newest rows).map (fun row => row.collectedAt) = none ↔ rows = [] := by
  rw [Option.map_eq_none_iff, newest, List.argmax_eq_none]

theorem latestResultTime_iff : latestResultTime store targetId metricCode = some last ↔
    (∃ row ∈ store.live, isOf targetId metricCode row = true ∧ row.collectedAt = last) ∧
      ∀ row ∈ store.live, isOf targetId metricCode row = true → row.collectedAt ≤ last := by
  unfold latestResultTime
  rw [newest_time_iff]
  simp only [List.mem_filter, and_assoc, and_imp]

/-- The newest collection failed when each of its rows reads as a failure. -/
theorem lastErrored_iff (found : latestResultTime store targetId metricCode = some last) :
    lastErrored last (latestSuccessfulResultTime store targetId metricCode) = true ↔
      ∀ row ∈ store.live, isOf targetId metricCode row = true → row.collectedAt = last → readsAsFailure row = true := by
  obtain ⟨_, bound⟩ := latestResultTime_iff.mp found
  unfold latestSuccessfulResultTime
  have successes : ∀ row, row ∈ (store.live.filter fun row => isOf targetId metricCode row && !readsAsFailure row) ↔
      row ∈ store.live ∧ isOf targetId metricCode row = true ∧ readsAsFailure row = false := by
    intro row
    rw [List.mem_filter, Bool.and_eq_true, Bool.not_eq_true']
  cases success : (newest (store.live.filter fun row => isOf targetId metricCode row && !readsAsFailure row)).map
      fun row => row.collectedAt with
  | none =>
    rw [newest_time_none] at success
    refine iff_of_true rfl fun row member own _ => ?_
    by_contra worked
    have among := (successes row).mpr ⟨member, own, Bool.eq_false_of_not_eq_true worked⟩
    rw [success] at among
    cases among
  | some text =>
    obtain ⟨⟨newestSuccess, among, rfl⟩, above⟩ := newest_time_iff.mp success
    obtain ⟨member, own, worked⟩ := (successes newestSuccess).mp among
    unfold lastErrored
    rw [decide_eq_true_iff]
    constructor
    · intro earlier row there ofPair same
      by_contra success
      have below := above row ((successes row).mpr ⟨there, ofPair, Bool.eq_false_of_not_eq_true success⟩)
      rw [same] at below
      exact absurd earlier (not_lt.mpr below)
    · intro failed
      refine lt_of_le_of_ne (bound newestSuccess member own) fun same => ?_
      rw [failed newestSuccess member own same] at worked
      cases worked

end Newest

/-! ## After a failure -/

/-- A metric on a target: its definition, the file it resolves to there, and when its window is open. -/
structure Plan where
  metric : MetricDefinition
  target : MetricTarget
  path : Except String (Option String)
  windowOpen : Instant → Bool

def Plan.mayRun (plan : Plan) (reader : StampReader) (store : Store) (now : Instant) : Bool :=
  plan.windowOpen now &&
    metricDue reader.fromIsoFormat plan.path plan.metric plan.target.targetId store now = some true

structure FailedRun where
  failure : Failure
  runId : Int
  importance : Int
  collectedAt : Moment

/-- The store once the failure's row is in it. -/
def storeFailure (errorSignature : String → String) (plan : Plan) (failed : FailedRun) (store : Store) : Store :=
  insertResults failed.runId [failureResult errorSignature plan.metric plan.target failed.importance
    (isoText failed.collectedAt) failed.failure] store

def retryMoment (plan : Plan) (failed : FailedRun) : Instant :=
  instantOf failed.collectedAt + plan.metric.retryIntervalSeconds * microsecondsPerSecond

/-- From the retry interval on the metric is due whenever its window allows it. -/
def Retried (reader : StampReader) (errorSignature : String → String) (plan : Plan) (failed : FailedRun)
    (store : Store) : Prop :=
  ∀ now, retryMoment plan failed ≤ now → plan.windowOpen now = true →
    plan.mayRun reader (storeFailure errorSignature plan failed store) now = true

/-- The failure is graded as one, and nothing of the same second succeeded. -/
def FailureStands (plan : Plan) (failed : FailedRun) (store : Store) : Prop :=
  gradedAsFailure plan.metric plan.target failed.failure = true ∧
    ∀ row ∈ store.live, isOf plan.target.targetId plan.metric.metricCode row = true →
      row.collectedAt = isoText failed.collectedAt → readsAsFailure row = true

def ClosedUntilRepeat (plan : Plan) (failed : FailedRun) : Prop :=
  ∀ now, retryMoment plan failed ≤ now → plan.windowOpen now = true →
    RepeatPassed (instantOf failed.collectedAt) (repeatIntervalFor plan.metric plan.path) now

/-- No row of the metric on the target is newer than the failure. -/
def IsLatest (plan : Plan) (failed : FailedRun) (store : Store) : Prop :=
  ∀ row ∈ store.live, isOf plan.target.targetId plan.metric.metricCode row = true →
    row.collectedAt ≤ isoText failed.collectedAt

section Failing

variable {errorSignature : String → String} {plan : Plan} {failed : FailedRun} {store : Store}

theorem live_storeFailure : (storeFailure errorSignature plan failed store).live =
    store.live ++ [insertedRow failed.runId (store.lastId + 1) (failureResult errorSignature plan.metric plan.target
      failed.importance (isoText failed.collectedAt) failed.failure)] := rfl

theorem latest_storeFailure (latest : IsLatest plan failed store) :
    latestResultTime (storeFailure errorSignature plan failed store) plan.target.targetId plan.metric.metricCode =
      some (isoText failed.collectedAt) := by
  rw [latestResultTime_iff, live_storeFailure]
  refine ⟨⟨_, List.mem_append_right _ (List.mem_singleton_self _), ?_, rfl⟩, ?_⟩
  · simp [isOf, insertedRow, failureResult]
  · intro row member own
    rcases List.mem_append.mp member with old | new
    · exact latest row old own
    · rw [List.mem_singleton.mp new]
      exact le_rfl

theorem lastErrored_storeFailure (latest : IsLatest plan failed store) :
    lastErrored (isoText failed.collectedAt) (latestSuccessfulResultTime (storeFailure errorSignature plan failed store)
      plan.target.targetId plan.metric.metricCode) = true ↔ FailureStands plan failed store := by
  rw [lastErrored_iff (latest_storeFailure latest), live_storeFailure]
  unfold FailureStands
  rw [List.forall_mem_append, List.forall_mem_singleton, readsAsFailure_failureResult, and_comm]
  refine and_congr_left fun _ => ?_
  constructor
  · intro graded
    exact graded (by simp [isOf, insertedRow, failureResult]) rfl
  · intro graded _ _
    exact graded

/-- The failed metric is retried exactly when its row stands as a failure, or the retry would be no earlier than
the next collection. -/
theorem retried_iff (reader : StampReader) (latest : IsLatest plan failed store) :
    Retried reader errorSignature plan failed store ↔ FailureStands plan failed store ∨ ClosedUntilRepeat plan failed := by
  have due_iff : ∀ now, plan.windowOpen now = true →
      (plan.mayRun reader (storeFailure errorSignature plan failed store) now = true ↔
        RepeatPassed (instantOf failed.collectedAt) (repeatIntervalFor plan.metric plan.path) now ∨
          FailureStands plan failed store ∧ retryMoment plan failed ≤ now) := by
    intro now isOpen
    unfold Plan.mayRun metricDue
    rw [isOpen, Bool.true_and, decide_eq_true_iff, latest_storeFailure latest, isMetricDue_isoText,
      lastErrored_storeFailure latest]
    rfl
  unfold Retried ClosedUntilRepeat
  constructor
  · intro retried
    by_cases stands : FailureStands plan failed store
    · exact Or.inl stands
    · refine Or.inr fun now later isOpen => ?_
      rcases (due_iff now isOpen).mp (retried now later isOpen) with passed | ⟨stands', _⟩
      · exact passed
      · exact absurd stands' stands
  · rintro (stands | closed) now later isOpen
    · exact (due_iff now isOpen).mpr (Or.inr ⟨stands, later⟩)
    · exact (due_iff now isOpen).mpr (Or.inl (closed now later isOpen))

end Failing

/-! ## After archiving -/

def NewestMoved (targetId metricCode : String) (calls : List ArchiveCall) (store : Store) : Prop :=
  ∃ row ∈ newest (store.live.filter (isOf targetId metricCode)), ∃ call ∈ calls, call.moves row = true

section Archiving

variable {targetId metricCode last : String} {calls : List ArchiveCall} {store : Store}

/-- What is as old as a row that goes, goes. -/
theorem moves_of_le {call : ArchiveCall} {row other : MetricRow} (moved : call.moves row = true)
    (older : other.collectedAt ≤ row.collectedAt) : call.moves other = true := by
  unfold ArchiveCall.moves at moved ⊢
  cases cutoff : call.cutoff with
  | none =>
    rw [cutoff] at moved
    cases moved
  | some text =>
    rw [cutoff] at moved
    have before : row.collectedAt < text := of_decide_eq_true moved
    exact decide_eq_true (older.trans_lt before)

theorem mem_live_archiveAll {row : MetricRow} :
    row ∈ (archiveAll calls store).live ↔ row ∈ store.live ∧ ∀ call ∈ calls, call.moves row = false := by
  rw [live_archiveAll, List.mem_filter, List.all_eq_true]
  simp only [Bool.not_eq_true']

theorem mem_newest_live {row : MetricRow} (found : row ∈ newest (store.live.filter (isOf targetId metricCode))) :
    row ∈ store.live ∧ isOf targetId metricCode row = true ∧ latestResultTime store targetId metricCode = some row.collectedAt := by
  have time : latestResultTime store targetId metricCode = some row.collectedAt := by
    unfold latestResultTime
    rw [Option.mem_def.mp found]
    rfl
  have member := List.mem_filter.mp (List.argmax_mem found)
  exact ⟨member.1, member.2, time⟩

theorem latest_of_newestMoved (moved : NewestMoved targetId metricCode calls store) :
    latestResultTime (archiveAll calls store) targetId metricCode = none := by
  obtain ⟨row, isNewest, call, among, goes⟩ := moved
  obtain ⟨_, _, time⟩ := mem_newest_live isNewest
  unfold latestResultTime
  rw [newest_time_none, List.filter_eq_nil_iff]
  intro other member own
  obtain ⟨live, stays⟩ := mem_live_archiveAll.mp member
  have older := (latestResultTime_iff.mp time).2 other live own
  have stayed := stays call among
  rw [moves_of_le goes older] at stayed
  cases stayed

/-- Else the newest time is what it was, and so is whether it failed. -/
theorem times_of_not_newestMoved (unmoved : ¬NewestMoved targetId metricCode calls store) :
    latestResultTime (archiveAll calls store) targetId metricCode = latestResultTime store targetId metricCode ∧
      ∀ last, latestResultTime store targetId metricCode = some last →
        lastErrored last (latestSuccessfulResultTime (archiveAll calls store) targetId metricCode) =
          lastErrored last (latestSuccessfulResultTime store targetId metricCode) := by
  cases found : newest (store.live.filter (isOf targetId metricCode)) with
  | none =>
    rw [newest, List.argmax_eq_none, List.filter_eq_nil_iff] at found
    have before : latestResultTime store targetId metricCode = none := by
      unfold latestResultTime
      rw [newest_time_none, List.filter_eq_nil_iff]
      exact found
    have after : latestResultTime (archiveAll calls store) targetId metricCode = none := by
      unfold latestResultTime
      rw [newest_time_none, List.filter_eq_nil_iff]
      exact fun row member => found row (mem_live_archiveAll.mp member).1
    refine ⟨after.trans before.symm, fun last some => ?_⟩
    rw [before] at some
    cases some
  | some row =>
    obtain ⟨member, own, time⟩ := mem_newest_live found
    have stays : ∀ call ∈ calls, call.moves row = false := by
      intro call among
      by_contra moved
      exact unmoved ⟨row, found, call, among, eq_true_of_ne_false moved⟩
    have after : latestResultTime (archiveAll calls store) targetId metricCode = some row.collectedAt := by
      refine latestResultTime_iff.mpr ⟨⟨row, mem_live_archiveAll.mpr ⟨member, stays⟩, own, rfl⟩, ?_⟩
      intro other among
      exact (latestResultTime_iff.mp time).2 other (mem_live_archiveAll.mp among).1
    refine ⟨after.trans time.symm, fun last isLast => ?_⟩
    obtain rfl : row.collectedAt = last := Option.some.inj (time.symm.trans isLast)
    rw [Bool.eq_iff_iff, lastErrored_iff after, lastErrored_iff time]
    constructor
    · intro failed other live ofPair same
      refine failed other (mem_live_archiveAll.mpr ⟨live, fun call among => ?_⟩) ofPair same
      by_contra moved
      have gone := moves_of_le (eq_true_of_ne_false moved) same.ge
      rw [stays call among] at gone
      cases gone
    · intro failed other live
      exact failed other (mem_live_archiveAll.mp live).1

/-- After the calls a metric is due that was, and one whose newest row went. -/
theorem metricDue_archiveAll_iff (fromIsoFormat : String → Option IsoReading) (path : Except String (Option String))
    (metric : MetricDefinition) (now : Instant) :
    metricDue fromIsoFormat path metric targetId (archiveAll calls store) now = some true ↔
      metricDue fromIsoFormat path metric targetId store now = some true ∨
        NewestMoved targetId metric.metricCode calls store := by
  unfold metricDue
  by_cases moved : NewestMoved targetId metric.metricCode calls store
  · rw [latest_of_newestMoved moved]
    exact iff_of_true rfl (Or.inr moved)
  · obtain ⟨same, errored⟩ := times_of_not_newestMoved moved
    rw [same, or_iff_left moved]
    cases found : latestResultTime store targetId metric.metricCode with
    | none => rfl
    | some last =>
      unfold isMetricDue
      dsimp only
      rw [errored last found]

end Archiving

/-- The archive calls make due no metric that was not. -/
def ArchiveKeepsDue (fromIsoFormat : String → Option IsoReading) (plan : Plan) (calls : List ArchiveCall) (store : Store)
    (now : Instant) : Prop :=
  metricDue fromIsoFormat plan.path plan.metric plan.target.targetId (archiveAll calls store) now = some true →
    metricDue fromIsoFormat plan.path plan.metric plan.target.targetId store now = some true

/-- A failure is retried at its retry interval exactly when it stands as one or the window is closed till the next
collection; and archiving makes the metric due exactly when it moves the newest row of one that was not. -/
theorem failure_retried_iff (reader : StampReader) (errorSignature : String → String) (plan : Plan) (failed : FailedRun)
    (store other : Store) (calls : List ArchiveCall) (now : Instant) (latest : IsLatest plan failed store) :
    (Retried reader errorSignature plan failed store ↔ FailureStands plan failed store ∨ ClosedUntilRepeat plan failed) ∧
      (ArchiveKeepsDue reader.fromIsoFormat plan calls other now ↔
        metricDue reader.fromIsoFormat plan.path plan.metric plan.target.targetId other now = some true ∨
          ¬NewestMoved plan.target.targetId plan.metric.metricCode calls other) := by
  refine ⟨retried_iff reader latest, ?_⟩
  unfold ArchiveKeepsDue
  rw [metricDue_archiveAll_iff]
  tauto

/-! ## A login that timed out -/

def salesPlan : Plan where
  metric := ⟨"INSTANCE_STATUS", "sql", "availability", 3600, 600, .warning, .warning, []⟩
  target := ⟨"SALES", "192.0.2.10", "192.0.2.10", "sqlserver", "", [], []⟩
  path := .ok none
  windowOpen _ := true

/-- No answer from the instance, on the first of October at noon. -/
def loginTimeout : FailedRun where
  failure := ⟨"Login timeout expired", "connect", none, none, none, none⟩
  runId := 1
  importance := 5
  collectedAt := 63926452800

theorem latest_empty (plan : Plan) (failed : FailedRun) : IsLatest plan failed .empty := by
  intro row member
  cases member

theorem timeout_is_no_failure : ¬FailureStands salesPlan loginTimeout .empty ∧
    ¬ClosedUntilRepeat salesPlan loginTimeout := by
  constructor
  · intro stands
    exact absurd stands.1 (by decide)
  · intro closed
    exact absurd (closed (retryMoment salesPlan loginTimeout) le_rfl rfl).2 (by decide)

/-- The instance that did not answer is asked again after an hour, not after its ten minutes. -/
theorem timeout_waits_for_the_hour : ¬∀ (reader : StampReader) (errorSignature : String → String) (plan : Plan)
    (failed : FailedRun) (store other : Store) (calls : List ArchiveCall) (now : Instant), IsLatest plan failed store →
      Retried reader errorSignature plan failed store ∧ ArchiveKeepsDue reader.fromIsoFormat plan calls other now := by
  intro kept
  obtain ⟨retried, _⟩ := kept stampReader id salesPlan loginTimeout .empty .empty [] 0 (latest_empty _ _)
  rcases (retried_iff stampReader (latest_empty _ _)).mp retried with stands | closed
  · exact timeout_is_no_failure.1 stands
  · exact timeout_is_no_failure.2 closed

theorem failure_retried_iff_timeout : IsLatest salesPlan loginTimeout .empty ∧
    (Retried stampReader id salesPlan loginTimeout .empty ↔
      FailureStands salesPlan loginTimeout .empty ∨ ClosedUntilRepeat salesPlan loginTimeout) :=
  ⟨latest_empty _ _, (failure_retried_iff stampReader id salesPlan loginTimeout .empty .empty [] 0 (latest_empty _ _)).1⟩

end DbaBrain.Metrics.DueAfterFailure
