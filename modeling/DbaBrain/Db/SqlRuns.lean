import DbaBrain.Foundation.Table
import DbaBrain.Lib.RunClaim
import DbaBrain.Db.JobRuns

/-!
# The SQL task runs table

`sql_runs`: a running row holds its task and target on its host, whatever the
scan that inserted it.
-/

namespace DbaBrain.Db.SqlRuns

open DbaBrain.Foundation DbaBrain.Foundation.Text DbaBrain.Lib.RunClaim
open DbaBrain.Db.JobRuns (Claimant claimPid)

structure TaskColumns where
  sqlId : Int
  sqlCode : String
  targetNo : Int
  serverId : String
  dbType : String
  serviceName : String
  instanceName : String
  databaseName : Option String
  credentialName : String

/-- A row of `sql_runs`. -/
structure SqlRunRow where
  sqlRunId : Nat
  createdAt : String
  runKey : String
  task : TaskColumns
  status : String
  level : String
  message : String
  startedAt : Option String
  finishedAt : Option String
  durationMs : Option Int
  rowCount : Option Int
  resultJson : String
  errorText : Option String
  hostName : Option String
  metadata : Metadata

def SqlRunRow.isRunning (row : SqlRunRow) : Bool := asciiLower row.status = "running"

/-- `ux_sql_runs_claim`. -/
def claimEntry (row : SqlRunRow) : Option (String × String) :=
  if row.isRunning then some (row.runKey, row.hostName.getD "") else none

abbrev SqlRunTable := Table SqlRunRow.sqlRunId claimEntry

/-- What a caller of `insert_sql_run` states. -/
structure SqlRun where
  runKey : String
  task : TaskColumns
  status : String
  level : String
  message : String
  startedAt : Option String
  metadata : Metadata

/-- `metadata.get("host_name") or socket.gethostname()`. -/
def SqlRun.hostOf (item : SqlRun) (claimant : Claimant) : String :=
  if item.metadata.hostName = "" then claimant.host else item.metadata.hostName

/-- The row `insert_sql_run` writes. -/
def SqlRun.row (item : SqlRun) (sqlRunId : Nat) (createdAt : String) (claimant : Claimant) : SqlRunRow where
  sqlRunId := sqlRunId
  createdAt := createdAt
  runKey := item.runKey
  task := item.task
  status := item.status
  level := item.level
  message := item.message
  startedAt := item.startedAt
  finishedAt := none
  durationMs := none
  rowCount := none
  resultJson := "{}"
  errorText := none
  hostName := some (item.hostOf claimant)
  metadata :=
    if asciiLower (strip item.status) = "running" then
      item.metadata.claimed (claimPid item.metadata claimant) (item.hostOf claimant) claimant.node
    else
      item.metadata

/-- `none` when the claim index refuses the row: `RunAlreadyClaimed`. -/
def insertSqlRun (runs : SqlRunTable) (sqlRunId : Nat) (createdAt : String) (claimant : Claimant) (item : SqlRun) :
    Option SqlRunTable :=
  runs.insert? (item.row sqlRunId createdAt claimant)

/-- The columns `update_sql_run` sets. -/
structure Outcome where
  status : String
  level : String
  message : String
  finishedAt : Option String
  durationMs : Option Int
  rowCount : Option Int
  resultJson : String
  errorText : Option String
  metadata : Metadata

def Outcome.apply (outcome : Outcome) (row : SqlRunRow) : SqlRunRow :=
  { row with
    status := outcome.status
    level := outcome.level
    message := outcome.message
    finishedAt := outcome.finishedAt
    durationMs := outcome.durationMs
    rowCount := outcome.rowCount
    resultJson := outcome.resultJson
    errorText := outcome.errorText
    metadata := outcome.metadata }

@[simp]
theorem Outcome.sqlRunId_apply (outcome : Outcome) (row : SqlRunRow) :
    (outcome.apply row).sqlRunId = row.sqlRunId := rfl

/-- The rows after `update_sql_run`, and whether a row was written. -/
def updateSqlRun (runs : SqlRunTable) (sqlRunId : Nat) (outcome : Outcome) (onlyIfStatus : Option String) :
    Option (SqlRunTable × Bool) :=
  let matching := fun row : SqlRunRow => row.sqlRunId = sqlRunId && onlyIfStatus.all fun status => row.status = status
  (runs.update? matching outcome.apply).map fun next => (next, runs.rows.any matching)
variable {runs : SqlRunTable} {sqlRunId : Nat} {outcome : Outcome} {onlyIfStatus : Option String}
variable {next : SqlRunTable} {written : Bool}

theorem rows_updateSqlRun (accepted : updateSqlRun runs sqlRunId outcome onlyIfStatus = some (next, written)) :
    next.rows = runs.rows.map fun row =>
      if row.sqlRunId = sqlRunId && onlyIfStatus.all fun status => row.status = status then outcome.apply row else row := by
  simp only [updateSqlRun, Option.map_eq_some_iff, Prod.mk.injEq] at accepted
  obtain ⟨_, updated, rfl, _⟩ := accepted
  exact Table.rows_of_update? updated

/-- An update that does not leave the row running is never refused. -/
theorem updateSqlRun_isSome (closes : asciiLower outcome.status ≠ "running") :
    ∃ next written, updateSqlRun runs sqlRunId outcome onlyIfStatus = some (next, written) := by
  have accepted : (runs.update?
      (fun row => row.sqlRunId = sqlRunId && onlyIfStatus.all fun status => row.status = status) outcome.apply).isSome =
        true := by
    refine Table.update?_isSome (fun _ => rfl) fun row _ _ => Or.inl ?_
    have ended : (outcome.apply row).isRunning = false := decide_eq_false closes
    rw [claimEntry, ended]
    rfl
  obtain ⟨next, updated⟩ := Option.isSome_iff_exists.mp accepted
  exact ⟨next, _, by rw [updateSqlRun, updated]; rfl⟩

theorem lookup_updateSqlRun {row : SqlRunRow} (found : runs.lookup sqlRunId = some row)
    (accepted : updateSqlRun runs sqlRunId outcome onlyIfStatus = some (next, written)) :
    written = (onlyIfStatus.all fun status => row.status = status) ∧
      next.lookup sqlRunId = some (if written then outcome.apply row else row) := by
  obtain ⟨member, own⟩ := Table.lookup_eq_some_iff.mp found
  simp only [updateSqlRun, Option.map_eq_some_iff, Prod.mk.injEq] at accepted
  obtain ⟨_, updated, rfl, rfl⟩ := accepted
  have wrote : (runs.rows.any fun row => row.sqlRunId = sqlRunId && onlyIfStatus.all fun status => row.status = status) =
      onlyIfStatus.all fun status => row.status = status := by
    rw [Bool.eq_iff_iff, List.any_eq_true]
    constructor
    · rintro ⟨other, among, matched⟩
      obtain ⟨same, holds⟩ := Bool.and_eq_true_iff.mp matched
      obtain rfl := Table.eq_of_key_eq among member ((of_decide_eq_true same).trans own.symm)
      exact holds
    · intro holds
      exact ⟨row, member, by simp [own, holds]⟩
  refine ⟨wrote, ?_⟩
  rw [Table.lookup_update? outcome.sqlRunId_apply updated, found, Option.map_some, wrote]
  simp [own]

def sqlRunStartedSince (runs : SqlRunTable) (runKey since : String) : Bool :=
  runs.rows.any fun row => row.runKey = runKey && row.startedAt.any fun start => decide (since ≤ start)

theorem sqlRunStartedSince_iff {runKey since : String} :
    sqlRunStartedSince runs runKey since = true ↔
      ∃ row ∈ runs.rows, row.runKey = runKey ∧ ∃ start, row.startedAt = some start ∧ since ≤ start := by
  simp [sqlRunStartedSince, Option.any_eq_true]

end DbaBrain.Db.SqlRuns
