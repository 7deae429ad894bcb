import DbaBrain.Db.SqlRuns

/-!
# Recording a SQL task run

What `run_one_sql_task` writes before the task's files are executed and after.
-/

namespace DbaBrain.SqlTasks.Runner

open DbaBrain.Foundation DbaBrain.Lib.RunClaim DbaBrain.Db.JobRuns DbaBrain.Db.SqlRuns

/-- The metadata of a task's run: of the fields a claim is read from, only the host. -/
def taskMetadata (hostName : String) : Metadata := { Metadata.empty with hostName := hostName }

/-- What `run_one_sql_task` records before it runs the task. -/
def runningTask (runKey : String) (task : TaskColumns) (startedAt hostName : String) : SqlRun where
  runKey := runKey
  task := task
  status := "running"
  level := "logging"
  message := "SQL task " ++ task.sqlCode ++ " started."
  startedAt := some startedAt
  metadata := taskMetadata hostName

inductive TaskEnd
  | done (warnings : List String) (rowCount : Int) (resultJson : String)
  | failed (failingFile errorText : String)

def warningNote : List String → String
  | [] => ""
  | first :: rest =>
      " " ++ toString (rest.length + 1) ++ " SQL Server warning(s); the first: " ++ first

/-- What `run_one_sql_task` writes when the task has ended. -/
def outcomeOf (sqlCode finishedAt : String) (durationMs : Int) (hostName : String) : TaskEnd → Outcome
  | .done warnings rowCount resultJson =>
      { status := "done"
        level := if warnings.isEmpty then "logging" else "warning"
        message := "SQL task " ++ sqlCode ++ " finished." ++ warningNote warnings
        finishedAt := some finishedAt
        durationMs := some durationMs
        rowCount := some rowCount
        resultJson := resultJson
        errorText := none
        metadata := taskMetadata hostName }
  | .failed failingFile errorText =>
      { status := "error"
        level := "error"
        message := "SQL task " ++ sqlCode ++ " failed" ++ (if failingFile = "" then "" else " at " ++ failingFile) ++ "."
        finishedAt := some finishedAt
        durationMs := some durationMs
        rowCount := none
        resultJson := "{}"
        errorText := some errorText
        metadata := taskMetadata hostName }

end DbaBrain.SqlTasks.Runner
