import DbaBrain.Foundation.StaleListing
import DbaBrain.SqlTasks.Runner
import DbaBrain.BackupRestore.Schedule

/-!
# Overlapping scans of one store

Scheduled SQL task scans and scheduled backup or restore passes list what is
due and work through it while other scans do the same.
-/

namespace DbaBrain.Jobs.OverlappingScans

open DbaBrain.Foundation DbaBrain.Foundation.StaleListing DbaBrain.Foundation.Execution
open DbaBrain.Lib.RunClaim DbaBrain.Db.JobRuns DbaBrain.Db.SqlRuns
open DbaBrain.SqlTasks.Runner DbaBrain.BackupRestore.Schedule

/-- A table of runs with the last number its key column has given. -/
structure Numbered (τ : Type) where
  runs : τ
  last : Nat

/-! ## SQL tasks -/

/-- Who runs the task, when its row is written, and the task's columns. -/
structure TaskStart where
  claimant : Claimant
  createdAt : String
  task : TaskColumns

structure TaskFinish where
  sqlCode : String
  finishedAt : String
  durationMs : Int
  hostName : String
  ending : TaskEnd

def claimTask (log : Numbered SqlRunTable) (start : TaskStart) (runKey startedAt : String) :
    Option (Numbered SqlRunTable × Nat) :=
  let sqlRunId := log.runs.nextKey log.last
  (insertSqlRun log.runs sqlRunId start.createdAt start.claimant
    (runningTask runKey start.task startedAt start.claimant.host)).map fun runs => (⟨runs, sqlRunId⟩, sqlRunId)

def finishTask (log : Numbered SqlRunTable) (sqlRunId : Nat) (finish : TaskFinish) : Numbered SqlRunTable :=
  match updateSqlRun log.runs sqlRunId
      (outcomeOf finish.sqlCode finish.finishedAt finish.durationMs finish.hostName finish.ending) none with
  | none => log
  | some (runs, _) => { log with runs := runs }

/-- `sql_runs` as the scans of `run_scheduler_scan` use it. -/
def sqlRunLog : RunLog (Numbered SqlRunTable) SqlRunRow String String Nat TaskStart TaskFinish where
  rows := fun log => log.runs.rows
  unit := SqlRunRow.runKey
  startedAt := SqlRunRow.startedAt
  isOpen := SqlRunRow.isRunning
  startedSince := fun log => sqlRunStartedSince log.runs
  claim := claimTask
  close := finishTask
  startedSince_iff := fun _ _ _ => sqlRunStartedSince_iff
  claim_rows := by
    intro log start runKey startedAt next sqlRunId claimed
    simp only [claimTask, Option.map_eq_some_iff, Prod.mk.injEq] at claimed
    obtain ⟨runs, inserted, rfl, rfl⟩ := claimed
    exact ⟨_, Table.rows_of_insert? inserted, rfl, rfl⟩
  close_rows := by
    intro log sqlRunId finish
    rw [finishTask]
    split
    · exact ⟨id, (List.map_id _).symm, fun _ => ⟨rfl, rfl⟩⟩
    · rename_i runs written accepted
      refine ⟨_, rows_updateSqlRun accepted, ?_⟩
      intro row
      split
      · exact ⟨rfl, rfl⟩
      · exact ⟨rfl, rfl⟩

/-! ## Backup jobs, restores and repository copies -/

structure JobStart where
  claimant : Claimant
  createdAt : String
  message : String
  metadata : Metadata

structure JobFinish where
  done : Bool
  message : String
  finishedAt : String
  durationMs : Int
  errorText : Option String
  metadata : Metadata

def claimJob (log : Numbered JobRunTable) (start : JobStart) (jobCode startedAt : String) :
    Option (Numbered JobRunTable × Nat) :=
  let logId := log.runs.nextKey log.last
  (startRun log.runs logId start.claimant jobCode start.message startedAt start.createdAt start.metadata).map
    fun runs => (⟨runs, logId⟩, logId)

def finishJob (log : Numbered JobRunTable) (logId : Nat) (finish : JobFinish) : Numbered JobRunTable :=
  match finishRun log.runs logId finish.done finish.message finish.finishedAt finish.durationMs finish.errorText
      finish.metadata with
  | none => log
  | some (runs, _) => { log with runs := runs }

/-- `job_runs` as the backup, restore and offload passes use it. -/
def jobRunLog : RunLog (Numbered JobRunTable) JobRunRow String String Nat JobStart JobFinish where
  rows := fun log => log.runs.rows
  unit := JobRunRow.jobCode
  startedAt := JobRunRow.startedAt
  isOpen := JobRunRow.isRunning
  startedSince := fun log => takenSince log.runs
  claim := claimJob
  close := finishJob
  startedSince_iff := fun _ _ _ => jobRunStartedSince_iff
  claim_rows := by
    intro log start jobCode startedAt next logId claimed
    simp only [claimJob, Option.map_eq_some_iff, Prod.mk.injEq] at claimed
    obtain ⟨runs, inserted, rfl, rfl⟩ := claimed
    exact ⟨_, Table.rows_of_insert? inserted, rfl, rfl⟩
  close_rows := by
    intro log logId finish
    rw [finishJob]
    split
    · exact ⟨id, (List.map_id _).symm, fun _ => ⟨rfl, rfl⟩⟩
    · rename_i runs written accepted
      refine ⟨_, rows_updateJobRun accepted, ?_⟩
      intro row
      split
      · exact ⟨rfl, rfl⟩
      · exact ⟨rfl, rfl⟩

/-! ## One run per due moment -/

/-- A scan runs a unit another scan has run since its listing exactly when that run was not in sight
of its question: inserted after it, or stamped before the listing. -/
theorem due_unit_runs_once_iff (sqlRuns : Numbered SqlRunTable) (jobRuns : Numbered JobRunTable) :
    (∀ labels : List (Nat × Statement String String TaskStart TaskFinish),
      Every (step sqlRunLog) (RunsOnce sqlRunLog) (System.ofLog sqlRunLog sqlRuns) labels ↔
        Every (step sqlRunLog) (InSight sqlRunLog) (System.ofLog sqlRunLog sqlRuns) labels) ∧
    ∀ labels : List (Nat × Statement String String JobStart JobFinish),
      Every (step jobRunLog) (RunsOnce jobRunLog) (System.ofLog jobRunLog jobRuns) labels ↔
        Every (step jobRunLog) (InSight jobRunLog) (System.ofLog jobRunLog jobRuns) labels :=
  ⟨runsOnce_iff_inSight sqlRuns, runsOnce_iff_inSight jobRuns⟩

section Race

def nightlyTask : TaskColumns where
  sqlId := 7
  sqlCode := "NIGHTLY"
  targetNo := 1
  serverId := "db1"
  dbType := "sqlserver"
  serviceName := ""
  instanceName := "MSSQLSERVER"
  databaseName := some "SALES"
  credentialName := "ops"

def nightlyStart : TaskStart := ⟨⟨40, "node-a", ""⟩, "2026-10-01T01:00:03Z", nightlyTask⟩

def nightlyFinish : TaskFinish := ⟨"NIGHTLY", "2026-10-01T01:00:04Z", 1000, "node-a", .done [] 0 "{}"⟩

/-- Both scans list the task and ask; the second runs it to its end before the first claims it. -/
def raceUntilClaim : List (Nat × Statement String String TaskStart TaskFinish) :=
  [(0, .note "2026-10-01T01:00:00Z"), (0, .list ["7:1"]), (1, .note "2026-10-01T01:00:01Z"), (1, .list ["7:1"]),
    (0, .ask), (1, .ask), (1, .stamp "2026-10-01T01:00:03Z"), (1, .claim nightlyStart),
    (1, .finish nightlyFinish), (0, .stamp "2026-10-01T01:00:05Z")]

def emptyLog : Numbered SqlRunTable := ⟨Table.empty, 0⟩

/-- Where the first scan stands, who inserted the first row, that row's key, and whether it is open. -/
def standing (system : System (Numbered SqlRunTable) String String Nat) :
    Worker String String Nat × Option (Option Nat) × Option (String × Bool) × Bool :=
  (system.workers 0, system.insertedBy[0]?,
    (sqlRunLog.rows system.log)[0]?.map fun row => (row.runKey, row.isRunning),
    (claimTask system.log nightlyStart "7:1" "2026-10-01T01:00:05Z").isSome)

theorem standing_raceUntilClaim :
    (exec (step sqlRunLog) (System.ofLog sqlRunLog emptyLog) raceUntilClaim).map standing =
      some (.stamped ⟨"2026-10-01T01:00:00Z", 0⟩ "7:1" [] 0 "2026-10-01T01:00:05Z", some (some 1),
        some ("7:1", false), true) := by
  decide +kernel

/-- The first scan runs the task the second has run to its end since the first listed it. -/
theorem stale_listing_runs_task_twice :
    ¬ ∀ (log : Numbered SqlRunTable) (labels : List (Nat × Statement String String TaskStart TaskFinish)),
      Every (step sqlRunLog) (RunsOnce sqlRunLog) (System.ofLog sqlRunLog log) labels := by
  intro runsOnce
  obtain ⟨middle, ran, stands⟩ := Option.map_eq_some_iff.mp standing_raceUntilClaim
  simp only [standing, Prod.mk.injEq, Option.map_eq_some_iff] at stands
  obtain ⟨stamped, inserter, ⟨row, found, same, ended⟩, free⟩ := stands
  obtain ⟨⟨next, run⟩, claimed⟩ := Option.isSome_iff_exists.mp free
  have enabled : (step sqlRunLog middle (0, .claim nightlyStart)).isSome = true := by
    rw [step, Option.isSome_map, stamped, workerStep]
    simp [show sqlRunLog.claim middle.log nightlyStart "7:1" "2026-10-01T01:00:05Z" = some (next, run) from claimed]
  obtain ⟨after, stepped⟩ := Option.isSome_iff_exists.mp enabled
  have once := (runsOnce emptyLog (raceUntilClaim ++ [(0, .claim nightlyStart)])).last ran stepped
  refine once ⟨"2026-10-01T01:00:00Z", 0⟩ "7:1" 0 ⟨[], _, nightlyStart, stamped, rfl, free⟩ 0 row ?_
  exact ⟨found, le_refl 0, ⟨1, inserter, by simp⟩, same, ended⟩

end Race

end DbaBrain.Jobs.OverlappingScans
