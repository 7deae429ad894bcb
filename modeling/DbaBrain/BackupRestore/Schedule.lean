import DbaBrain.Db.JobRuns

/-!
# Recording a backup or restore run

A backup job, a restore and a repository copy are one unit of work each, under
one job code that is also the key the run claims.
-/

namespace DbaBrain.BackupRestore.Schedule

open DbaBrain.Foundation DbaBrain.Lib.Coerce DbaBrain.Lib.DueRule DbaBrain.Lib.RunClaim DbaBrain.Db.JobRuns

def backupJobPrefix : String := "backup_restore.backup_job"

def restoreJobPrefix : String := "backup_restore.restore_job"

def offloadJobPrefix : String := "backup_restore.offload_job"

/-- `taken_since`: another run started this unit of work at or after `since`. -/
def takenSince (runs : JobRunTable) (jobCode since : String) : Bool := jobRunStartedSince runs jobCode since

/-- What `start_run` records. -/
def runningRun (jobCode message startedAt hostName : String) (metadata : Metadata) : JobRun where
  jobCode := jobCode
  level := "logging"
  status := "RUNNING"
  message := message
  startedAt := some startedAt
  finishedAt := none
  durationMs := none
  errorText := none
  hostName := some hostName
  claimKey := some jobCode
  metadata := metadata

def startRun (runs : JobRunTable) (logId : Nat) (claimant : Claimant) (jobCode message startedAt createdAt : String)
    (metadata : Metadata) : Option JobRunTable :=
  insertJobRun runs logId createdAt claimant (runningRun jobCode message startedAt claimant.host metadata)

/-- What `finish_run` sets: `status.upper()` of `done` or `error`. -/
def closingOf (done : Bool) (message finishedAt : String) (durationMs : Int) (errorText : Option String)
    (metadata : Metadata) : Closing where
  level := if done then "logging" else "error"
  status := if done then "DONE" else "ERROR"
  message := message
  finishedAt := some finishedAt
  durationMs := some durationMs
  errorText := errorText
  metadata := metadata

def finishRun (runs : JobRunTable) (logId : Nat) (done : Bool) (message finishedAt : String) (durationMs : Int)
    (errorText : Option String) (metadata : Metadata) : Option (JobRunTable × Bool) :=
  updateJobRun runs logId (closingOf done message finishedAt durationMs errorText metadata) false

/-! ## Closing runs nobody is running any more -/

/-- `job_code[len(PREFIX) + 1:]`. -/
def afterPrefix (jobCodePrefix jobCode : String) : List Char := jobCode.toList.drop (jobCodePrefix.toList.length + 1)

def startsWith (jobCode jobCodePrefix : String) : Bool := jobCodePrefix.toList.isPrefixOf jobCode.toList

/-- `text.rsplit(".", 1)[0]`. -/
def beforeLastDot (text : List Char) : List Char :=
  match text.reverse.dropWhile fun c => c ≠ '.' with
  | [] => text
  | _ :: rest => rest.reverse

def runLabel (jobCode : String) : String :=
  if startsWith jobCode offloadJobPrefix then
    "backup_id=" ++ String.ofList (afterPrefix offloadJobPrefix jobCode)
  else if startsWith jobCode backupJobPrefix then
    "backup_id=" ++ String.ofList (beforeLastDot (afterPrefix backupJobPrefix jobCode))
  else
    "restore_id=" ++ String.ofList (afterPrefix restoreJobPrefix jobCode)

/-- One pass: who makes it, and the timeout of each configured job code. -/
structure Sweep where
  observer : Observer
  timeouts : String → Option Int
  fromIsoFormat : String → Option IsoReading

/-- When the run started. -/
def Sweep.runTime (sweep : Sweep) (row : JobRunRow) : Option Instant := runAnchor sweep.fromIsoFormat row.columns

def timedOutMessage (jobCode reason : String) (elapsed timeout : Int) : String :=
  runLabel jobCode ++ " timed out: " ++ reason ++ ", after " ++ toString elapsed ++ "s (timeout=" ++ toString timeout ++
    "s). The run died without reporting — process killed, container restarted, or host rebooted."

/-- The verdict on a row whose job code has a timeout and whose start can be read. -/
def Sweep.verdict (sweep : Sweep) (row : JobRunRow) (timeout elapsed : Int) : ReapVerdict :=
  reapVerdict row.metadata sweep.observer.host elapsed timeout (sweep.observer.ownerAlive row) foreignHostGraceSeconds
    sweep.observer.node false row.host

/-- What the pass writes into an open row, if it closes it. -/
def Sweep.judge (sweep : Sweep) (row : JobRunRow) : Option Closing :=
  match sweep.timeouts row.jobCode with
  | none => none
  | some timeout =>
      if timeout = 0 then none
      else
        match sweep.runTime row with
        | none => none
        | some started =>
            let elapsed := elapsedSeconds started sweep.observer.now
            let verdict := sweep.verdict row timeout elapsed
            if verdict.reap then
              let message := timedOutMessage row.jobCode verdict.reason elapsed timeout
              some
                { level := "error"
                  status := "TIMEOUT"
                  message := message
                  finishedAt := some (sweep.observer.closedAt row.logId)
                  durationMs := some (elapsed * 1000)
                  errorText := some message
                  metadata := row.metadata }
            else none

def reapStaleRuns (sweep : Sweep) (runs : JobRunTable) : JobRunTable :=
  [backupJobPrefix, restoreJobPrefix, offloadJobPrefix].foldl (fun runs jobCodePrefix =>
    closeEach sweep.judge true runs (fetchRunningJobRuns runs jobCodePrefix)) runs

end DbaBrain.BackupRestore.Schedule
