import DbaBrain.Jobs.Daemon

/-!
# Open runs at daemon startup

`recover_stale_running_jobs`: a daemon that has just started closes the open
rows its node's earlier life left, command by command.
-/

namespace DbaBrain.Jobs.StartupRecovery

open DbaBrain.Foundation DbaBrain.Foundation.Text DbaBrain.Lib.Coerce DbaBrain.Lib.DueRule DbaBrain.Lib.RunClaim
open DbaBrain.Db.JobRuns DbaBrain.Jobs.Daemon

/-- An entry of `app_commands.json`, with the role it runs on. -/
structure ConfiguredCommand extends AppCommand where
  nodeRole : String

def runsOn (commandRole nodeRole : String) : Bool :=
  let role := if asciiLower (strip commandRole) = "" then "all" else asciiLower (strip commandRole)
  role ∈ ["all", "both", "any"] ||
    role = (if asciiLower (strip nodeRole) = "" then "master" else asciiLower (strip nodeRole))

structure Startup where
  observer : Observer
  commands : String → Option ConfiguredCommand
  nodeRole : Option String
  fromIsoFormat : String → Option IsoReading

def Startup.rowTime (startup : Startup) (row : JobRunRow) : Option Instant :=
  runAnchor startup.fromIsoFormat row.columns

/-- The timeout the verdict is given: none for a service. -/
def ConfiguredCommand.timeout (command : ConfiguredCommand) : Int :=
  if command.timeoutDisabled then 0 else command.timeoutSeconds

/-- The row of a daemon whose command is no longer in the file: its metadata names the command. -/
def Startup.removed (startup : Startup) (row : JobRunRow) : Bool :=
  (startup.commands (strip row.jobCode)).isNone && strip row.jobCode ≠ "" &&
    row.metadata.appCommandId = strip row.jobCode

def Startup.anotherNode (startup : Startup) (row : JobRunRow) : Bool :=
  claimNode row.metadata ≠ "" && claimNode row.metadata ≠ startup.observer.node

def Startup.verdict (startup : Startup) (row : JobRunRow) (command : ConfiguredCommand) (elapsed : Int) : ReapVerdict :=
  startupVerdict row.metadata startup.observer.host elapsed command.timeout (startup.observer.ownerAlive row)
    foreignHostGraceSeconds startup.observer.node row.host

def Startup.removedClosing (startup : Startup) (row : JobRunRow) : Closing where
  level := "error"
  status := "timeout"
  message := "App command " ++ strip row.jobCode ++
    " recovered from a RUNNING state on daemon startup: it is no longer in app_commands.json."
  finishedAt := some (startup.observer.closedAt row.logId)
  durationMs := none
  errorText := some "The app command was removed from app_commands.json while this run was open."
  metadata := Metadata.empty

def Startup.staleClosing (startup : Startup) (row : JobRunRow) (command : ConfiguredCommand) (elapsed : Int) :
    Closing where
  level := "error"
  status := "timeout"
  message := "App command " ++ strip row.jobCode ++ " recovered from stale RUNNING state on daemon startup after " ++
    toString elapsed ++ "s (timeout=" ++ toString command.timeoutSeconds ++ "s)."
  finishedAt := some (startup.observer.closedAt row.logId)
  durationMs := none
  errorText := some ("Stale running job detected on startup. elapsed=" ++ toString elapsed ++ "s timeout=" ++
    toString command.timeoutSeconds ++ "s. Marked timeout to unblock retry.")
  metadata := { Metadata.empty with appCommandId := command.appCommandId }

/-- What the startup writes into an open row, if it closes it. -/
def Startup.judge (startup : Startup) (row : JobRunRow) : Option Closing :=
  if asciiLower (strip row.status) ≠ "running" then none
  else
    match startup.commands (strip row.jobCode) with
    | none =>
        if !startup.anotherNode row && startup.removed row then some (startup.removedClosing row) else none
    | some command =>
        if startup.nodeRole.any fun role => !runsOn command.nodeRole role then none
        else
          match startup.rowTime row with
          | none => none
          | some lastRun =>
              let elapsed := elapsedSeconds lastRun startup.observer.now
              if (startup.verdict row command elapsed).reap then some (startup.staleClosing row command elapsed)
              else none

def recoverStaleRunningJobs (startup : Startup) (runs : JobRunTable) : JobRunTable :=
  closeEach startup.judge false runs (fetchRunningJobRuns runs "")

end DbaBrain.Jobs.StartupRecovery
