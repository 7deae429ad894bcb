import DbaBrain.SqlTasks.Runner

/-!
# How a SQL run ends

`run_one_sql_task` after it has inserted the run's row, one step at a time, with
the stale-run sweeps landing in between.  A step fails or does not; a failure
inside the `try` goes to its handler, which records an error and queues an
alert, and a failure outside it ends the call.  A sweep closes a row that is
still running and then queues an alert of its own.  A run whose process was
stopped takes no more steps.
-/

namespace DbaBrain.SqlTasks.RunEnding

open DbaBrain.Foundation DbaBrain.Lib.RunClaim DbaBrain.Db.JobRuns DbaBrain.Db.SqlRuns DbaBrain.SqlTasks.Runner

/-! ## One run -/

/-- What a task's run does: `files` scripts, and what its target says about messages and output. -/
structure Task where
  columns : TaskColumns
  files : Nat
  pythonSource : Bool
  progressPerFile : Option Bool
  logging : Bool
  alerts : Bool
  exports : Bool
  requested : Bool

/-- A step inside the `try`. -/
inductive Step
  | prepare
  | execute (file : Nat)
  | progressMessage (file : Nat)
  | writeOutput
  | storeResult
  | rowsToRequester
  | finishedMessage
  | document
  deriving DecidableEq

/-- The SQL steps: what a failure of them leaves undone on the target. -/
def Step.isSql : Step → Bool
  | prepare => true
  | execute _ => true
  | _ => false

def Task.reportProgress (task : Task) : Bool := task.progressPerFile.getD (task.files > 1 && !task.pythonSource)

def Task.fileSteps (task : Task) (file : Nat) : List Step :=
  .execute file :: if task.logging && task.reportProgress then [.progressMessage file] else []

def Task.sqlSteps (task : Task) : List Step := .prepare :: (List.range task.files).flatMap task.fileSteps

/-- What follows once the outcome is stored. -/
def Task.messages (task : Task) : List Step :=
  (if task.requested then [.rowsToRequester] else []) ++ (if task.logging then [.finishedMessage] else []) ++ [.document]

def Task.steps (task : Task) : List Step :=
  task.sqlSteps ++ ((if task.exports then [.writeOutput] else []) ++ .storeResult :: task.messages)

/-- Where the call is. -/
inductive Phase
  | starting
  | trying (rest : List Step)
  | recording
  | alerting
  | returned (success : Bool)
  | raised
  | unanswered

/-- How a step goes, with what it records where it records something.  `writesFile` is of the output step, which does
not raise where the file cannot be written. -/
structure Detail where
  raises : Bool
  writesFile : Bool
  finishedAt : String
  durationMs : Int
  hostName : String
  warnings : List String
  rowCount : Int
  resultJson : String
  failingFile : String
  errorText : String

/-- A sweep that has judged the row; `alerts` is what the sweeping node's target says. -/
structure Sweep where
  verdict : ReapVerdict
  message : String
  finishedAt : String
  alerts : Bool

inductive Event
  | run (detail : Detail)
  | sweep (sweep : Sweep)
  | report (raises : Bool)

/-- `reports` counts the sweeps that have closed the row and not yet queued their alert. -/
structure State where
  runs : SqlRunTable
  phase : Phase
  document : Bool
  sqlSucceeded : Bool
  swept : Bool
  reports : Nat
  alerts : Nat

def Sweep.outcome (sweep : Sweep) : Outcome where
  status := "error"
  level := "error"
  message := sweep.message
  finishedAt := some sweep.finishedAt
  durationMs := none
  rowCount := none
  resultJson := "{}"
  errorText := some sweep.message
  metadata := Metadata.empty

def Detail.done (detail : Detail) (task : Task) : Outcome :=
  outcomeOf task.columns.sqlCode detail.finishedAt detail.durationMs detail.hostName
    (.done detail.warnings detail.rowCount detail.resultJson)

def Detail.failed (detail : Detail) (task : Task) : Outcome :=
  outcomeOf task.columns.sqlCode detail.finishedAt detail.durationMs detail.hostName
    (.failed detail.failingFile detail.errorText)

/-- `update_sql_run` without a guard. -/
def State.record (state : State) (sqlRunId : Nat) (outcome : Outcome) : State :=
  match updateSqlRun state.runs sqlRunId outcome none with
  | none => state
  | some (runs, _) => { state with runs := runs }

/-- `update_sql_run` with `only_if_status="running"`, and what the sweep does where it landed. -/
def State.close (state : State) (sqlRunId : Nat) (sweep : Sweep) : State :=
  match updateSqlRun state.runs sqlRunId sweep.outcome (some "running") with
  | some (runs, true) =>
      { state with
        runs := runs
        swept := true
        reports := if sweep.alerts then state.reports + 1 else state.reports }
  | _ => state

/-- A step of the `try` that went well. -/
def State.went (state : State) (task : Task) (sqlRunId : Nat) (detail : Detail) (step : Step) (rest : List Step) :
    State :=
  let next :=
    { state with
      phase := .trying rest
      sqlSucceeded := rest.all fun later => !later.isSql
      document := if step = .writeOutput then detail.writesFile else state.document }
  if step = .storeResult then next.record sqlRunId (detail.done task) else next

/-- The next step of the call. -/
def State.proceed (state : State) (task : Task) (sqlRunId : Nat) (detail : Detail) : State :=
  match state.phase with
  | .starting =>
      if task.logging && detail.raises then { state with phase := .raised }
      else { state with phase := .trying task.steps }
  | .trying [] => { state with phase := .returned true }
  | .trying (step :: rest) =>
      -- There is no message about a file that was not written.
      if detail.raises && (step ≠ .document || state.document) then { state with phase := .recording }
      else state.went task sqlRunId detail step rest
  | .recording =>
      if detail.raises then { state with phase := .unanswered }
      else { state.record sqlRunId (detail.failed task) with phase := .alerting }
  | .alerting =>
      if task.alerts = false then { state with phase := .returned false }
      else if detail.raises then { state with phase := .raised }
      else { state with phase := .returned false, alerts := state.alerts + 1 }
  | _ => state

/-- A sweep's alert is queued, or queueing it fails. -/
def State.report (state : State) (raises : Bool) : State :=
  if state.reports = 0 then state
  else if raises then { state with reports := state.reports - 1 }
  else { state with reports := state.reports - 1, alerts := state.alerts + 1 }

def State.step (task : Task) (sqlRunId : Nat) (state : State) : Event → State
  | .run detail => state.proceed task sqlRunId detail
  | .sweep sweep => if sweep.verdict.reap then state.close sqlRunId sweep else state
  | .report raises => state.report raises

/-- The run's row, just inserted. -/
structure Start (task : Task) where
  before : SqlRunTable
  sqlRunId : Nat
  createdAt : String
  claimant : Claimant
  runKey : String
  startedAt : String
  hostName : String
  runs : SqlRunTable
  inserted : insertSqlRun before sqlRunId createdAt claimant (runningTask runKey task.columns startedAt hostName) =
    some runs

variable {task : Task}

def Start.state (start : Start task) : State where
  runs := start.runs
  phase := .starting
  document := false
  sqlSucceeded := false
  swept := false
  reports := 0
  alerts := 0

def Start.after (start : Start task) (events : List Event) : State :=
  events.foldl (State.step task start.sqlRunId) start.state

def State.status (state : State) (sqlRunId : Nat) : Option String := (state.runs.lookup sqlRunId).map SqlRunRow.status

/-- The call has returned or raised with the store answering. -/
def Phase.ended : Phase → Bool
  | returned _ => true
  | raised => true
  | _ => false

/-! ## What is asked of a run -/

/-- The row leaves `running` once and with its own outcome. -/
structure ClosedOnce (start : Start task) (events : List Event) : Prop where
  stays : ∀ before event after, events = before ++ event :: after →
    (start.after before).status start.sqlRunId ≠ some "running" →
      (start.after (before ++ [event])).status start.sqlRunId = (start.after before).status start.sqlRunId
  done_iff : ∀ before after, events = before ++ after →
    (start.after before).status start.sqlRunId ≠ some "running" →
      ((start.after before).status start.sqlRunId = some "done" ↔
        (start.after before).sqlSucceeded = true ∧ (start.after before).swept = false)
  closed : ∀ before after, events = before ++ after → (start.after before).phase.ended = true →
    (start.after before).status start.sqlRunId ≠ some "running"
  alerted : ∀ before after, events = before ++ after → (start.after before).alerts ≤ 1

/-- What a step has to find. -/
def Finds (task : Task) (sqlRunId : Nat) (state : State) : Event → Prop
  | .run detail =>
      match state.phase with
      | .starting => task.logging = true → detail.raises = true → state.status sqlRunId ≠ some "running"
      | .trying (.storeResult :: _) => detail.raises = false → state.status sqlRunId = some "running"
      | .recording =>
          detail.raises = false → state.status sqlRunId ≠ some "done" ∧
            (state.status sqlRunId = some "running" → state.sqlSucceeded = false)
      | .alerting => task.alerts = true → detail.raises = false → state.alerts = 0
      | _ => True
  | .sweep _ => True
  | .report raises => state.reports ≠ 0 → raises = false → state.alerts = 0

/-! ## The row -/

section Row

variable {sqlRunId : Nat} {state : State} {status : String}

theorem record_eq (sqlRunId : Nat) (state : State) (outcome : Outcome) :
    ∃ runs, state.record sqlRunId outcome = { state with runs := runs } := by
  unfold State.record
  split
  · exact ⟨state.runs, rfl⟩
  · exact ⟨_, rfl⟩

@[simp]
theorem record_phase (outcome : Outcome) : (state.record sqlRunId outcome).phase = state.phase := by
  obtain ⟨_, same⟩ := record_eq sqlRunId state outcome
  rw [same]

@[simp]
theorem record_sqlSucceeded (outcome : Outcome) :
    (state.record sqlRunId outcome).sqlSucceeded = state.sqlSucceeded := by
  obtain ⟨_, same⟩ := record_eq sqlRunId state outcome
  rw [same]

@[simp]
theorem record_swept (outcome : Outcome) : (state.record sqlRunId outcome).swept = state.swept := by
  obtain ⟨_, same⟩ := record_eq sqlRunId state outcome
  rw [same]

@[simp]
theorem record_alerts (outcome : Outcome) : (state.record sqlRunId outcome).alerts = state.alerts := by
  obtain ⟨_, same⟩ := record_eq sqlRunId state outcome
  rw [same]

theorem closes_error : Text.asciiLower "error" ≠ "running" := by decide

theorem closes_done : Text.asciiLower "done" ≠ "running" := by decide

theorem exists_row (present : state.status sqlRunId = some status) :
    ∃ row, state.runs.lookup sqlRunId = some row ∧ row.status = status :=
  Option.map_eq_some_iff.mp present

/-- Without a guard the outcome is recorded whatever the row says. -/
theorem record_status {outcome : Outcome} (present : state.status sqlRunId = some status)
    (closes : Text.asciiLower outcome.status ≠ "running") :
    (state.record sqlRunId outcome).status sqlRunId = some outcome.status := by
  obtain ⟨row, found, -⟩ := exists_row present
  obtain ⟨next, written, accepted⟩ : ∃ next written, updateSqlRun state.runs sqlRunId outcome none =
      some (next, written) := updateSqlRun_isSome closes
  obtain ⟨wrote, after⟩ := lookup_updateSqlRun found accepted
  unfold State.record
  rw [accepted]
  simp [State.status, after, wrote, Outcome.apply]

/-- With the guard a sweep records its outcome on a row that is still running. -/
theorem close_of_running (sweep : Sweep) (open_ : state.status sqlRunId = some "running") :
    ∃ runs, state.close sqlRunId sweep = { state with
        runs := runs
        swept := true
        reports := if sweep.alerts then state.reports + 1 else state.reports } ∧
      (runs.lookup sqlRunId).map SqlRunRow.status = some "error" := by
  obtain ⟨row, found, running⟩ := exists_row open_
  obtain ⟨next, written, accepted⟩ : ∃ next written, updateSqlRun state.runs sqlRunId sweep.outcome (some "running") =
      some (next, written) := updateSqlRun_isSome closes_error
  obtain ⟨wrote, after⟩ := lookup_updateSqlRun found accepted
  obtain rfl : written = true := by simpa [running] using wrote
  refine ⟨next, ?_, ?_⟩
  · unfold State.close
    rw [accepted]
  · rw [after]
    rfl

theorem close_of_closed {sweep : Sweep} (present : state.status sqlRunId = some status) (closed : status ≠ "running") :
    state.close sqlRunId sweep = state := by
  obtain ⟨row, found, own⟩ := exists_row present
  obtain ⟨next, written, accepted⟩ : ∃ next written, updateSqlRun state.runs sqlRunId sweep.outcome (some "running") =
      some (next, written) := updateSqlRun_isSome closes_error
  obtain ⟨wrote, -⟩ := lookup_updateSqlRun found accepted
  obtain rfl : written = false := by simpa [own, closed] using wrote
  unfold State.close
  rw [accepted]

end Row

/-! ## The steps of a run -/

/-- Nothing of the SQL comes after the outcome is stored, and it is stored once. -/
theorem steps_ordered (task : Task) :
    task.steps.Pairwise fun earlier later => earlier = .storeResult → later.isSql = false ∧ later ≠ .storeResult := by
  have sql : ∀ step ∈ task.sqlSteps, step ≠ .storeResult := by
    intro step member
    rcases List.mem_cons.mp member with rfl | file
    · exact nofun
    · obtain ⟨no, -, among⟩ := List.mem_flatMap.mp file
      rcases List.mem_cons.mp among with rfl | message
      · exact nofun
      · split at message
        · obtain rfl := List.mem_singleton.mp message
          exact nofun
        · cases message
  have messages : ∀ step ∈ task.messages, step.isSql = false ∧ step ≠ .storeResult := by
    intro step member
    unfold Task.messages at member
    rcases List.mem_append.mp member with before | last
    · rcases List.mem_append.mp before with rows | finished
      · split at rows
        · obtain rfl := List.mem_singleton.mp rows
          exact ⟨rfl, nofun⟩
        · cases rows
      · split at finished
        · obtain rfl := List.mem_singleton.mp finished
          exact ⟨rfl, nofun⟩
        · cases finished
    · obtain rfl := List.mem_singleton.mp last
      exact ⟨rfl, nofun⟩
  have output : ∀ step ∈ (if task.exports then [Step.writeOutput] else []), step ≠ .storeResult := by
    intro step member
    split at member
    · obtain rfl := List.mem_singleton.mp member
      exact nofun
    · cases member
  unfold Task.steps
  refine List.pairwise_append.mpr ⟨?_, List.pairwise_append.mpr ⟨?_, List.pairwise_cons.mpr ⟨?_, ?_⟩, ?_⟩, ?_⟩
  · exact List.pairwise_of_forall_mem_list fun step member _ _ stored => absurd stored (sql step member)
  · exact List.pairwise_of_forall_mem_list fun step member _ _ stored => absurd stored (output step member)
  · exact fun later member _ => messages later member
  · exact List.pairwise_of_forall_mem_list fun step member _ _ stored => absurd stored (messages step member).2
  · exact fun step member _ _ stored => absurd stored (output step member)
  · exact fun step member _ _ stored => absurd stored (sql step member)

theorem after_store {rest : List Step} (suffix : (.storeResult :: rest) <:+ task.steps) :
    (rest.all fun later => !later.isSql) = true ∧ Step.storeResult ∉ rest := by
  have ordered := ((steps_ordered task).sublist suffix.sublist)
  have behind := (List.pairwise_cons.mp ordered).1
  constructor
  · rw [List.all_eq_true]
    intro later member
    rw [(behind later member rfl).1]
    rfl
  · exact fun member => (behind _ member rfl).2 rfl

/-! ## What holds while every step finds what it needs -/

/-- What holds between the steps of such a run. -/
structure Sound (task : Task) (sqlRunId : Nat) (state : State) : Prop where
  known : state.status sqlRunId = some "running" ∨ state.status sqlRunId = some "done" ∨
    state.status sqlRunId = some "error"
  swept : state.swept = true → state.status sqlRunId = some "error"
  done_iff : state.status sqlRunId ≠ some "running" →
    (state.status sqlRunId = some "done" ↔ state.sqlSucceeded = true ∧ state.swept = false)
  starting : state.phase = .starting → state.sqlSucceeded = false ∧ state.status sqlRunId ≠ some "done" ∧
    (state.status sqlRunId = some "error" → state.swept = true)
  trying : ∀ rest, state.phase = .trying rest → rest <:+ task.steps ∧
    state.sqlSucceeded = (rest.all fun later => !later.isSql) ∧
    (Step.storeResult ∈ rest → state.status sqlRunId ≠ some "done") ∧
    (Step.storeResult ∉ rest → state.status sqlRunId ≠ some "running") ∧
    (state.status sqlRunId = some "error" → state.swept = true)
  alerting : state.phase = .alerting → state.status sqlRunId ≠ some "running"
  ended : state.phase.ended = true → state.status sqlRunId ≠ some "running"
  alerted : state.alerts ≤ 1

theorem Start.found (start : Start task) : start.state.status start.sqlRunId = some "running" := by
  have found := Table.lookup_insert?_self start.inserted
  rw [State.status]
  exact congrArg (Option.map SqlRunRow.status) found

theorem Start.sound (start : Start task) : Sound task start.sqlRunId start.state := by
  have running := start.found
  refine ⟨Or.inl running, nofun, fun closed => absurd running closed, fun _ => ⟨rfl, ?_, ?_⟩, nofun, nofun, nofun,
    Nat.zero_le 1⟩
  · simp [running]
  · simp [running]

section Steps

variable {sqlRunId : Nat} {state : State} {detail : Detail}

/-- A status that is kept is kept by a step that leaves the row alone. -/
def Keeps (sqlRunId : Nat) (state next : State) : Prop :=
  state.status sqlRunId ≠ some "running" → next.status sqlRunId = state.status sqlRunId

theorem Sound.not_swept (sound : Sound task sqlRunId state) (running : state.status sqlRunId = some "running") :
    state.swept = false := by
  by_contra swept
  have closed := sound.swept (Bool.not_eq_false _ ▸ swept)
  rw [running] at closed
  exact absurd (Option.some.inj closed) (by decide)

theorem sound_close (sound : Sound task sqlRunId state) (sweep : Sweep) :
    Sound task sqlRunId (state.close sqlRunId sweep) ∧ Keeps sqlRunId state (state.close sqlRunId sweep) := by
  by_cases running : state.status sqlRunId = some "running"
  · obtain ⟨runs, same, error⟩ := close_of_running sweep running
    have status : (state.close sqlRunId sweep).status sqlRunId = some "error" := by rw [same]; exact error
    refine ⟨⟨Or.inr (Or.inr status), fun _ => status, fun _ => ?_, fun phase => ?_, fun rest phase => ?_, fun _ => ?_,
      fun _ => ?_, ?_⟩, fun closed => absurd running closed⟩
    · rw [status, same]
      simp
    · rw [same] at phase
      rw [status, same]
      exact ⟨(sound.starting phase).1, by simp⟩
    · rw [same] at phase
      obtain ⟨suffix, succeeded, -⟩ := sound.trying rest phase
      rw [status, same]
      exact ⟨suffix, succeeded, by simp⟩
    · rw [status]
      simp
    · rw [status]
      simp
    · rw [same]
      exact sound.alerted
  · obtain ⟨status, present⟩ : ∃ status, state.status sqlRunId = some status := by
      rcases sound.known with known | known | known <;> exact ⟨_, known⟩
    have closed : status ≠ "running" := by
      rintro rfl
      exact running present
    rw [close_of_closed present closed]
    exact ⟨sound, fun _ => rfl⟩

/-- Only what is counted has changed. -/
theorem sound_alerts {reports alerts : Nat} (sound : Sound task sqlRunId state) (most : alerts ≤ 1) :
    Sound task sqlRunId { state with reports := reports, alerts := alerts } :=
  ⟨sound.known, sound.swept, sound.done_iff, sound.starting, sound.trying, sound.alerting, sound.ended, most⟩

theorem sound_report {raises : Bool} (sound : Sound task sqlRunId state)
    (finds : Finds task sqlRunId state (.report raises)) :
    Sound task sqlRunId (state.report raises) ∧ Keeps sqlRunId state (state.report raises) := by
  unfold State.report
  by_cases none_left : state.reports = 0
  · rw [if_pos none_left]
    exact ⟨sound, fun _ => rfl⟩
  · rw [if_neg none_left]
    cases raises with
    | true => exact ⟨sound_alerts sound sound.alerted, fun _ => rfl⟩
    | false =>
      have first : state.alerts = 0 := finds none_left rfl
      exact ⟨sound_alerts sound (by simp [first]), fun _ => rfl⟩

/-- The result is stored on a row that was still running. -/
theorem sound_store {rest : List Step} (sound : Sound task sqlRunId state)
    (phase : state.phase = .trying (.storeResult :: rest)) (running : state.status sqlRunId = some "running") :
    Sound task sqlRunId (state.went task sqlRunId detail .storeResult rest) ∧
      Keeps sqlRunId state (state.went task sqlRunId detail .storeResult rest) := by
  obtain ⟨suffix, -⟩ := sound.trying _ phase
  obtain ⟨succeeded, once⟩ := after_store suffix
  have unswept := sound.not_swept running
  unfold State.went
  rw [if_pos rfl]
  generalize before : ({ state with
    phase := .trying rest
    sqlSucceeded := rest.all fun later => !later.isSql
    document := if Step.storeResult = .writeOutput then detail.writesFile else state.document } : State) = next
  have present : next.status sqlRunId = some "running" := by rw [← before]; exact running
  have status : (next.record sqlRunId (detail.done task)).status sqlRunId = some "done" :=
    record_status present closes_done
  refine ⟨⟨Or.inr (Or.inl status), ?_, fun _ => ?_, ?_, fun later where_ => ?_, ?_, ?_, ?_⟩,
    fun closed => absurd running closed⟩
  · rw [record_swept, ← before, unswept]
    exact nofun
  · rw [status, record_swept, record_sqlSucceeded, ← before]
    exact iff_of_true rfl ⟨succeeded, unswept⟩
  · rw [record_phase, ← before]
    exact nofun
  · rw [record_phase, ← before] at where_
    obtain rfl := Phase.trying.inj where_
    rw [status, record_sqlSucceeded, ← before]
    exact ⟨(List.suffix_cons _ _).trans suffix, rfl, fun again => absurd again once, by simp, by simp⟩
  · rw [record_phase, ← before]
    exact nofun
  · rw [record_phase, ← before]
    exact nofun
  · rw [record_alerts, ← before]
    exact sound.alerted

/-- A step that records nothing. -/
theorem sound_went {step : Step} {rest : List Step} (sound : Sound task sqlRunId state)
    (phase : state.phase = .trying (step :: rest)) (other : step ≠ .storeResult) :
    Sound task sqlRunId (state.went task sqlRunId detail step rest) ∧
      Keeps sqlRunId state (state.went task sqlRunId detail step rest) := by
  obtain ⟨suffix, succeeded, open_, closed, error⟩ := sound.trying _ phase
  unfold State.went
  rw [if_neg other]
  refine ⟨⟨sound.known, sound.swept, fun ended => ?_, nofun, fun later where_ => ?_, nofun, nofun, sound.alerted⟩,
    fun _ => rfl⟩
  · constructor
    · intro done
      obtain ⟨before, unswept⟩ := (sound.done_iff ended).mp done
      rw [succeeded, List.all_cons, Bool.and_eq_true] at before
      exact ⟨before.2, unswept⟩
    · rintro ⟨-, unswept⟩
      rcases sound.known with running | done | failed
      · exact absurd running ended
      · exact done
      · exact absurd (error failed) (by simp [show state.swept = false from unswept])
  · obtain rfl := Phase.trying.inj where_
    refine ⟨(List.suffix_cons _ _).trans suffix, rfl, fun later => open_ (List.mem_cons_of_mem _ later),
      fun later => closed ?_, error⟩
    intro member
    rcases List.mem_cons.mp member with same | among
    · exact other same.symm
    · exact later among

theorem sound_recording (sound : Sound task sqlRunId state) (finds : state.status sqlRunId ≠ some "done" ∧
      (state.status sqlRunId = some "running" → state.sqlSucceeded = false)) :
    Sound task sqlRunId { state.record sqlRunId (detail.failed task) with phase := .alerting } ∧
      Keeps sqlRunId state { state.record sqlRunId (detail.failed task) with phase := .alerting } := by
  obtain ⟨undone, unfinished⟩ := finds
  have status : (state.record sqlRunId (detail.failed task)).status sqlRunId = some "error" := by
    rcases sound.known with present | present | present <;> exact record_status present closes_error
  have row : ({ state.record sqlRunId (detail.failed task) with phase := .alerting } : State).status sqlRunId =
      some "error" := status
  refine ⟨⟨Or.inr (Or.inr row), fun _ => row, fun _ => ?_, nofun, nofun, fun _ => ?_, nofun, ?_⟩,
    fun closed => ?_⟩
  · rw [row]
    refine iff_of_false (by simp) ?_
    rintro ⟨succeeded, unswept⟩
    rw [record_sqlSucceeded] at succeeded
    rw [record_swept] at unswept
    rcases sound.known with running | done | failed
    · rw [unfinished running] at succeeded
      cases succeeded
    · exact undone done
    · have ended : state.status sqlRunId ≠ some "running" := by simp [failed]
      exact undone ((sound.done_iff ended).mpr ⟨succeeded, unswept⟩)
  · rw [row]
    simp
  · rw [record_alerts]
    exact sound.alerted
  · rcases sound.known with running | done | failed
    · exact absurd running closed
    · exact absurd done undone
    · rw [row, failed]

theorem storeResult_mem (task : Task) : Step.storeResult ∈ task.steps :=
  List.mem_append_right _ (List.mem_append_right _ List.mem_cons_self)

theorem sound_proceed (sound : Sound task sqlRunId state) (finds : Finds task sqlRunId state (.run detail)) :
    Sound task sqlRunId (state.proceed task sqlRunId detail) ∧
      Keeps sqlRunId state (state.proceed task sqlRunId detail) := by
  unfold State.proceed
  unfold Finds at finds
  cases phase : state.phase with
  | starting =>
    rw [phase] at finds
    obtain ⟨unfinished, undone, error⟩ := sound.starting phase
    dsimp only at finds ⊢
    split
    · rename_i failed
      obtain ⟨logging, raises⟩ := Bool.and_eq_true_iff.mp failed
      have closed := finds logging raises
      exact ⟨⟨sound.known, sound.swept, sound.done_iff, nofun, nofun, nofun, fun _ => closed, sound.alerted⟩,
        fun _ => rfl⟩
    · refine ⟨⟨sound.known, sound.swept, sound.done_iff, nofun, fun rest tries => ?_, nofun, nofun, sound.alerted⟩,
        fun _ => rfl⟩
      obtain rfl := Phase.trying.inj tries
      exact ⟨List.suffix_refl _, unfinished, fun _ => undone, fun never => absurd (storeResult_mem task) never, error⟩
  | trying rest =>
    cases rest with
    | nil =>
      obtain ⟨-, -, -, closed, -⟩ := sound.trying [] phase
      have ended := closed List.not_mem_nil
      exact ⟨⟨sound.known, sound.swept, sound.done_iff, nofun, nofun, nofun, fun _ => ended, sound.alerted⟩,
        fun _ => rfl⟩
    | cons step rest =>
      dsimp only
      split
      · exact ⟨⟨sound.known, sound.swept, sound.done_iff, nofun, nofun, nofun, nofun, sound.alerted⟩,
          fun _ => rfl⟩
      · rename_i went
        by_cases stores : step = .storeResult
        · subst stores
          rw [phase] at finds
          have answered : detail.raises = false := by simpa using went
          exact sound_store sound phase (finds answered)
        · exact sound_went sound phase stores
  | recording =>
    rw [phase] at finds
    dsimp only
    split
    · exact ⟨⟨sound.known, sound.swept, sound.done_iff, nofun, nofun, nofun, nofun, sound.alerted⟩, fun _ => rfl⟩
    · rename_i answered
      exact sound_recording sound (finds (Bool.eq_false_iff.mpr answered))
  | alerting =>
    rw [phase] at finds
    have closed := sound.alerting phase
    dsimp only
    split
    · exact ⟨⟨sound.known, sound.swept, sound.done_iff, nofun, nofun, nofun, fun _ => closed, sound.alerted⟩,
        fun _ => rfl⟩
    · rename_i alerts
      split
      · exact ⟨⟨sound.known, sound.swept, sound.done_iff, nofun, nofun, nofun, fun _ => closed, sound.alerted⟩,
          fun _ => rfl⟩
      · rename_i queued
        have first : state.alerts = 0 := finds (Bool.not_eq_false _ ▸ alerts) (Bool.eq_false_iff.mpr queued)
        exact ⟨⟨sound.known, sound.swept, sound.done_iff, nofun, nofun, nofun, fun _ => closed, by simp [first]⟩,
          fun _ => rfl⟩
  | returned success => exact ⟨sound, fun _ => rfl⟩
  | raised => exact ⟨sound, fun _ => rfl⟩
  | unanswered => exact ⟨sound, fun _ => rfl⟩

theorem sound_step {event : Event} (sound : Sound task sqlRunId state) (finds : Finds task sqlRunId state event) :
    Sound task sqlRunId (state.step task sqlRunId event) ∧
      Keeps sqlRunId state (state.step task sqlRunId event) := by
  cases event with
  | run detail => exact sound_proceed sound finds
  | sweep sweep =>
    rw [State.step]
    split
    · exact sound_close sound sweep
    · exact ⟨sound, fun _ => rfl⟩
  | report raises => exact sound_report sound finds

/-- A step that does not find what it needs leaves the row or the alerts otherwise than asked. -/
theorem finds_of_step {event : Event} (sound : Sound task sqlRunId state)
    (stays : Keeps sqlRunId state (state.step task sqlRunId event))
    (done_iff : (state.step task sqlRunId event).status sqlRunId ≠ some "running" →
      ((state.step task sqlRunId event).status sqlRunId = some "done" ↔
        (state.step task sqlRunId event).sqlSucceeded = true ∧ (state.step task sqlRunId event).swept = false))
    (closed : (state.step task sqlRunId event).phase.ended = true →
      (state.step task sqlRunId event).status sqlRunId ≠ some "running")
    (alerted : (state.step task sqlRunId event).alerts ≤ 1) : Finds task sqlRunId state event := by
  cases event with
  | sweep sweep => trivial
  | report raises =>
    intro pending queued
    subst queued
    rw [State.step, State.report, if_neg pending] at alerted
    exact Nat.le_zero.mp (Nat.le_of_succ_le_succ alerted)
  | run detail =>
    rw [State.step] at stays done_iff closed alerted
    unfold State.proceed at stays done_iff closed alerted
    unfold Finds
    cases phase : state.phase with
    | starting =>
      intro logging raises
      simp only [phase, logging, raises, Bool.and_self, if_true] at closed
      exact closed rfl
    | trying rest =>
      cases rest with
      | nil => trivial
      | cons step rest =>
        cases step with
        | storeResult =>
          intro answered
          obtain ⟨-, -, undone, -, -⟩ := sound.trying _ phase
          simp only [phase, answered, Bool.false_and, Bool.false_eq_true, if_false] at stays
          rcases sound.known with running | done | failed
          · exact running
          · exact absurd done (undone List.mem_cons_self)
          · have stored : (state.went task sqlRunId detail .storeResult rest).status sqlRunId = some "done" :=
              record_status failed closes_done
            have kept := stays (by simp [failed])
            rw [stored, failed] at kept
            exact absurd (Option.some.inj kept) (by decide)
        | _ => trivial
    | recording =>
      intro answered
      simp only [phase, answered, Bool.false_eq_true, if_false] at stays done_iff
      have recorded : (state.record sqlRunId (detail.failed task)).status sqlRunId = some "error" := by
        rcases sound.known with present | present | present <;> exact record_status present closes_error
      have row : ({ state.record sqlRunId (detail.failed task) with phase := .alerting } : State).status sqlRunId =
          some "error" := recorded
      constructor
      · intro done
        have kept := stays (by simp [done])
        rw [row, done] at kept
        exact absurd (Option.some.inj kept) (by decide)
      · intro running
        by_contra succeeded
        rw [row] at done_iff
        have right := done_iff (by simp)
        rw [record_sqlSucceeded, record_swept] at right
        have done := right.mpr ⟨Bool.not_eq_false _ ▸ succeeded, sound.not_swept running⟩
        exact absurd (Option.some.inj done) (by decide)
    | alerting =>
      intro alerts queued
      simp only [phase, alerts, queued, Bool.true_eq_false, Bool.false_eq_true, if_false] at alerted
      exact Nat.le_zero.mp (Nat.le_of_succ_le_succ alerted)
    | returned success => trivial
    | raised => trivial
    | unanswered => trivial

end Steps

/-! ## Runs -/

section Runs

variable {start : Start task} {events : List Event}

theorem Start.after_append (start : Start task) (before : List Event) (event : Event) :
    start.after (before ++ [event]) = (start.after before).step task start.sqlRunId event := by
  rw [Start.after, List.foldl_append]
  rfl

/-- Each step finds what it needs in the state the steps before it have left. -/
def AllFind (start : Start task) (events : List Event) : Prop :=
  ∀ before event after, events = before ++ event :: after → Finds task start.sqlRunId (start.after before) event

theorem sound_after (found : AllFind start events) {before after : List Event} (split : events = before ++ after) :
    Sound task start.sqlRunId (start.after before) := by
  induction before using List.reverseRecOn generalizing after with
  | nil => exact start.sound
  | append_singleton earlier event ih =>
    rw [List.append_assoc, List.singleton_append] at split
    rw [start.after_append]
    exact (sound_step (ih split) (found earlier event after split)).1

theorem closedOnce_of_allFind (found : AllFind start events) : ClosedOnce start events where
  stays before event after split := by
    rw [start.after_append]
    exact (sound_step (sound_after found split) (found before event after split)).2
  done_iff _ _ split := (sound_after found split).done_iff
  closed _ _ split := (sound_after found split).ended
  alerted _ _ split := (sound_after found split).alerted

theorem ClosedOnce.earlier {after : List Event} (closed : ClosedOnce start (events ++ after)) : ClosedOnce start events where
  stays before event rest split := closed.stays before event (rest ++ after) (by rw [split, List.append_assoc]; rfl)
  done_iff before rest split := closed.done_iff before (rest ++ after) (by rw [split, List.append_assoc])
  closed before rest split := closed.closed before (rest ++ after) (by rw [split, List.append_assoc])
  alerted before rest split := closed.alerted before (rest ++ after) (by rw [split, List.append_assoc])

theorem allFind_of_closedOnce (closed : ClosedOnce start events) : AllFind start events := by
  induction events using List.reverseRecOn with
  | nil =>
    intro before event after split
    exact absurd split.symm (by simp)
  | append_singleton earlier last ih =>
    have found := ih closed.earlier
    have own : Finds task start.sqlRunId (start.after earlier) last := by
      have sound := sound_after found (List.append_nil earlier).symm
      have whole := (List.append_nil (earlier ++ [last])).symm
      have stays := closed.stays earlier last [] rfl
      have done_iff := closed.done_iff _ _ whole
      have ended := closed.closed _ _ whole
      have alerted := closed.alerted _ _ whole
      rw [start.after_append] at stays done_iff ended alerted
      exact finds_of_step sound stays done_iff ended alerted
    intro before event after split
    rcases List.eq_nil_or_concat after with rfl | ⟨rest, final, rfl⟩
    · obtain ⟨rfl, same⟩ := List.append_inj' split rfl
      obtain rfl := List.singleton_inj.mp same
      exact own
    · rw [List.concat_eq_append, ← List.cons_append, ← List.append_assoc] at split
      obtain ⟨rfl, -⟩ := List.append_inj' split rfl
      exact found before event rest rfl

end Runs

/-! ### A run that goes on after a sweep -/

/-- A task of one file without messages. -/
def loneTask : Task :=
  ⟨⟨28, "load", 1, "db01", "sqlserver", "", "", none, "loader"⟩, 1, false, none, false, false, false, false⟩

def goesWell : Detail := ⟨false, false, "2026-10-02T00:20:00Z", 1200000, "worker", [], 1, "{}", "", ""⟩

/-- A sweep of another host, which cannot stop the process. -/
def overdue : Sweep :=
  ⟨⟨true, "past its timeout", true⟩, "SQL task load error by timeout", "2026-10-02T00:16:00Z", false⟩

theorem exists_start (task : Task) : ∃ start : Start task, start.before = Table.empty := by
  have accepted : (insertSqlRun Table.empty 1 "2026-10-02 00:00:00" ⟨1, "worker", "worker"⟩
      (runningTask "28:1" task.columns "2026-10-02T00:00:00Z" "worker")).isSome = true := by
    refine Table.insert?_isSome_iff.mpr ⟨rfl, fun _ _ other member => ?_⟩
    exact absurd member List.not_mem_nil
  obtain ⟨runs, inserted⟩ := Option.isSome_iff_exists.mp accepted
  exact ⟨⟨_, _, _, _, _, _, _, runs, inserted⟩, rfl⟩

end DbaBrain.SqlTasks.RunEnding
