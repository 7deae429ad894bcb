import DbaBrain.Db.JobRuns
import DbaBrain.Db.RunRequestLifecycle

/-!
# The daemon's scheduler scan

One scan collects what has ended, sweeps the request queue and starts what is
due or asked for.  Every call it makes outside itself, to the store and to the
operating system, has its answer given beforehand.
-/

namespace DbaBrain.Jobs.Daemon

open DbaBrain.Foundation DbaBrain.Foundation.Calendar DbaBrain.Foundation.Text
open DbaBrain.Lib.RunClaim
open DbaBrain.Db.JobRuns DbaBrain.Db.RunRequests DbaBrain.Db.RunRequestClaim DbaBrain.Db.RunRequestLifecycle

inductive Mode
  | sync
  | async
  deriving DecidableEq

structure RunMode where
  mode : Mode
  maxParallel : Nat

def mayStart (runMode : RunMode) (inFlight : Nat) : Bool :=
  match runMode.mode with
  | .sync => inFlight = 0
  | .async => inFlight < runMode.maxParallel

structure AppCommand where
  appCommandId : String
  runMode : RunMode
  timeoutDisabled : Bool
  timeoutSeconds : Int

/-- A living process the daemon has spawned. -/
structure Child where
  pid : Nat
  appCommandId : String

structure RunningAppCommand where
  appCommand : AppCommand
  pid : Nat
  logId : Nat
  runRequestId : Option Nat

/-- `running_slot_key`: the key an entry occupies in `running_commands`. -/
def RunningAppCommand.slot (entry : RunningAppCommand) : String × Nat := (entry.appCommand.appCommandId, entry.pid)

/-- The store as this daemon uses it, its `running_commands`, and its living children. -/
structure World where
  requests : Requests
  lastRequestId : Nat
  runs : JobRunTable
  lastLogId : Nat
  running : List RunningAppCommand
  children : List Child

/-- The pid of a new child: no living child has it, nor an entry whose process is not yet collected. -/
def World.newPid (world : World) : Nat :=
  above (world.children.map Child.pid ++ world.running.map RunningAppCommand.pid) 0

theorem World.newPid_ne_of_child {world : World} {child : Child} (member : child ∈ world.children) :
    child.pid ≠ world.newPid :=
  (lt_above 0 (List.mem_append_left _ (List.mem_map_of_mem member))).ne

theorem World.newPid_ne_of_running {world : World} {entry : RunningAppCommand} (member : entry ∈ world.running) :
    entry.pid ≠ world.newPid :=
  (lt_above 0 (List.mem_append_right _ (List.mem_map_of_mem member))).ne

def World.nextLogId (world : World) : Nat := world.runs.nextKey world.lastLogId

/-- How many processes of this app command the daemon has on its books. -/
def countInFlight (running : List RunningAppCommand) (appCommandId : String) : Nat :=
  running.countP fun entry => entry.appCommand.appCommandId = appCommandId

/-- The process has ended. -/
def World.ended (world : World) (pid : Nat) : World :=
  { world with children := world.children.filter fun child => child.pid ≠ pid }

/-! ## Starting a command -/

structure StartCalls where
  /-- `Popen` and everything before it. -/
  spawns : Bool
  markerReads : Bool
  insertAnswers : Bool
  /-- `stop_process_tree` ends the child. -/
  stops : Bool
  markAnswers : Bool
  /-- Writing the event of the start, or of its refusal. -/
  eventWrites : Bool
  /-- Whether the exception, if one is raised, is the store's trouble. -/
  storeTrouble : Bool
  startedAt : Moment
  createdAt : Moment
  markedAt : Moment

inductive StartResult
  | returned
  | raised

def startMessage (command : AppCommand) (request : Option Request) : String :=
  "App command " ++ command.appCommandId ++ " started" ++
    match request with
    | none => "."
    | some row => " on request from " ++ (if row.requestedBy = "" then "the console" else row.requestedBy) ++ "."

/-- The run a start inserts: a `sync` command claims its own id. -/
def startedRun (claimant : Claimant) (command : AppCommand) (request : Option Request) (pid : Nat)
    (startedAt : Moment) : JobRun where
  jobCode := command.appCommandId
  level := "logging"
  status := "running"
  message := startMessage command request
  startedAt := some (isoText startedAt)
  finishedAt := none
  durationMs := none
  errorText := none
  hostName := some claimant.host
  claimKey := if command.runMode.mode = .async then none else some command.appCommandId
  metadata := { Metadata.empty with pid := .pid pid, appCommandId := command.appCommandId }

def World.spawn (world : World) (command : AppCommand) : World :=
  { world with children := world.children ++ [⟨world.newPid, command.appCommandId⟩] }

@[simp]
theorem World.requests_spawn (world : World) (command : AppCommand) :
    (world.spawn command).requests = world.requests := rfl

@[simp]
theorem World.runs_spawn (world : World) (command : AppCommand) : (world.spawn command).runs = world.runs := rfl

def claimRun (claimant : Claimant) (world : World) (command : AppCommand) (request : Option Request)
    (calls : StartCalls) : Option JobRunTable :=
  insertJobRun world.runs world.nextLogId (isoText calls.createdAt) claimant
    (startedRun claimant command request world.newPid calls.startedAt)

/-- `mark_run_request_started`, which swallows the store's failure. -/
def markRunRequestStarted (requests : Requests) (request : Option Request) (logId : Nat) (calls : StartCalls) :
    Requests :=
  match request with
  | none => requests
  | some row =>
      if calls.markAnswers then
        -- The run was inserted right before.
        (markStarted requests [(logId : Int)] row.requestId calls.markedAt (some logId)).getD requests
      else
        requests

/-- The world once the claim stands: the child recorded, the request marked. -/
def recorded (world : World) (runs : JobRunTable) (command : AppCommand) (request : Option Request)
    (calls : StartCalls) : World :=
  { world.spawn command with
    runs := runs
    lastLogId := world.nextLogId
    running := world.running ++
      [{ appCommand := command, pid := world.newPid, logId := world.nextLogId,
         runRequestId := request.map Request.requestId }]
    requests := markRunRequestStarted world.requests request world.nextLogId calls }

def startAppCommand (claimant : Claimant) (world : World) (command : AppCommand) (request : Option Request)
    (calls : StartCalls) : World × StartResult :=
  if !calls.spawns then
    (world, .raised)
  else if !calls.markerReads || !calls.insertAnswers then
    (world.spawn command, .raised)
  else
    match claimRun claimant world command request calls with
    | none =>
        -- Somebody on this host holds the key: the child just spawned is the duplicate.
        (if calls.stops then (world.spawn command).ended world.newPid else world.spawn command,
          if calls.eventWrites then .returned else .raised)
    | some runs =>
        (recorded world runs command request calls, if calls.eventWrites then .returned else .raised)

/-! ## One command of the scan -/

/-- A run the console asks for while the scan is at work. -/
structure Arrival where
  appCommandId : String
  requestedBy : String
  source : String
  note : String
  at_ : Moment

def requestRun (world : World) (arrival : Arrival) : World :=
  let code := strip arrival.appCommandId
  if code = "" then
    world
  else
    let requestId := world.requests.nextKey world.lastRequestId
    match insertRequest world.requests requestId code arrival.requestedBy arrival.source arrival.at_ arrival.note with
    | none => world
    | some next => { world with requests := next, lastRequestId := requestId }

structure Turn where
  /-- In its window and due, by the schedule. -/
  scheduled : Bool
  claimAnswers : Bool
  claimNow : Moment
  claimWrittenAt : Moment
  start : StartCalls
  /-- The requests queued between the claim and the release. -/
  arrivals : List Arrival
  releaseAnswers : Bool
  recordAnswers : Bool
  /-- The exception's class and text. -/
  reason : String
  failedAt : Moment

/-- `claim_run_request`, which swallows the store's failure. -/
def claimRunRequest (requests : Requests) (appCommandId : String) (turn : Turn) : Requests × Option Request :=
  if turn.claimAnswers then
    let result := claim requests appCommandId defaultRequestTtlSeconds turn.claimNow turn.claimWrittenAt
    (result.1, result.2.handed)
  else
    (requests, none)

def releaseNote : String := "Start failed; returned to the queue."

/-- `release_run_request`, which swallows the store's failure and its refusal. -/
def releaseRunRequest (requests : Requests) (request : Option Request) (turn : Turn) : Requests :=
  match request with
  | none => requests
  | some row =>
      if turn.releaseAnswers then (release requests row.requestId releaseNote).getD requests else requests

def recordStartFailure (claimant : Claimant) (world : World) (command : AppCommand) (turn : Turn) : World :=
  if turn.recordAnswers then
    let item : JobRun :=
      { jobCode := command.appCommandId, level := "error", status := "error",
        message := "App command " ++ command.appCommandId ++ " could not be started.",
        startedAt := some (isoText turn.failedAt), finishedAt := some (isoText turn.failedAt),
        durationMs := some 0, errorText := some (take 4000 ("start failed: " ++ turn.reason)), hostName := some claimant.host, claimKey := none,
        metadata := { Metadata.empty with appCommandId := command.appCommandId } }
    match insertJobRun world.runs world.nextLogId (isoText turn.failedAt) claimant item with
    | none => world
    | some runs => { world with runs := runs, lastLogId := world.nextLogId }
  else
    world

/-- A start the scan made: the world before it, and the request it was made for. -/
structure Start where
  before : World
  command : AppCommand
  request : Option Request
  turn : Turn

/-- What a turn leaves: the world, the start it made, and whether the scan ends here. -/
structure TurnResult where
  world : World
  start : Option Start
  ends : Bool

def skip (world : World) : TurnResult := ⟨world, none, false⟩

/-- The start of a command and what the scan does about its failure. -/
def startTurn (claimant : Claimant) (world : World) (command : AppCommand) (request : Option Request)
    (turn : Turn) : TurnResult :=
  let outcome := startAppCommand claimant world command request turn.start
  let after := turn.arrivals.foldl requestRun outcome.1
  let made : Start := ⟨world, command, request, turn⟩
  match outcome.2 with
  | .returned => ⟨after, some made, false⟩
  | .raised =>
      let released := { after with requests := releaseRunRequest after.requests request turn }
      if turn.start.storeTrouble then
        ⟨released, some made, true⟩
      else
        ⟨recordStartFailure claimant released command turn, some made, false⟩

def scanCommand (claimant : Claimant) (singlePass : Bool) (requested : String → Bool) (world : World)
    (command : AppCommand) (turn : Turn) : TurnResult :=
  if singlePass && command.timeoutDisabled then
    skip world
  else if !mayStart command.runMode (countInFlight world.running command.appCommandId) then
    skip world
  else if requested command.appCommandId then
    let claimed := claimRunRequest world.requests command.appCommandId turn
    match claimed.2 with
    | none => skip { world with requests := claimed.1 }
    | some row => startTurn claimant { world with requests := claimed.1 } command (some row) turn
  else if turn.scheduled then
    startTurn claimant world command none turn
  else
    skip world

/-- The loop of the scan over its active commands. -/
def scanCommands (claimant : Claimant) (singlePass : Bool) (requested : String → Bool) (world : World) :
    List (AppCommand × Turn) → World × List Start
  | [] => (world, [])
  | (command, turn) :: rest =>
      let result := scanCommand claimant singlePass requested world command turn
      if result.ends then
        (result.world, result.start.toList)
      else
        let later := scanCommands claimant singlePass requested result.world rest
        (later.1, result.start.toList ++ later.2)

/-! ## Before the loop -/

/-- What collecting one running command is answered. -/
structure CollectCalls where
  overran : Bool
  stops : Bool
  returncode : Int
  elapsedMs : Int
  errorText : Option String
  finishedAt : Moment
  updateAnswers : Bool
  doneAnswers : Bool

def finishedRun (entry : RunningAppCommand) (status : String) (calls : CollectCalls) : Closing where
  level := if status = "done" then "logging" else "error"
  status := status
  message := "App command " ++ entry.appCommand.appCommandId ++ " finished with status " ++ status ++ "."
  finishedAt := some (isoText calls.finishedAt)
  durationMs := some calls.elapsedMs
  errorText := calls.errorText
  metadata := { Metadata.empty with pid := .pid entry.pid, appCommandId := entry.appCommand.appCommandId }

/-- `finish_run_request`, which swallows the store's failure. -/
def finishRunRequest (requests : Requests) (entry : RunningAppCommand) (status : String) (calls : CollectCalls) :
    Requests :=
  match entry.runRequestId with
  | none => requests
  | some requestId =>
      if calls.doneAnswers then
        (markDone requests requestId calls.finishedAt ("Run finished with status " ++ status ++ ".")).getD requests
      else
        requests

/-- One entry of `running_commands`; `false` when the store's failure ends the scan. -/
def collectOne (calls : CollectCalls) (world : World) (entry : RunningAppCommand) : World × Bool :=
  let alive := world.children.any fun child => child.pid = entry.pid
  let overran := calls.overran && !entry.appCommand.timeoutDisabled
  if alive && !overran then
    (world, true)
  else
    let stopped := if alive && calls.stops then world.ended entry.pid else world
    let status := if alive then "timeout" else if calls.returncode = 0 then "done" else "error"
    if calls.updateAnswers then
      let runs := (updateJobRun stopped.runs entry.logId (finishedRun entry status calls) false).map Prod.fst
      ({ stopped with
          runs := runs.getD stopped.runs
          requests := finishRunRequest stopped.requests entry status calls
          running := stopped.running.filter fun other => other.slot ≠ entry.slot }, true)
    else
      (stopped, false)

def collectEntries (calls : Nat → CollectCalls) (world : World) : List RunningAppCommand → World × Bool
  | [] => (world, true)
  | entry :: rest =>
      let result := collectOne (calls entry.pid) world entry
      if result.2 then collectEntries calls result.1 rest else result

/-- `false` when the store's failure ends the scan. -/
def collectRunningCommands (calls : Nat → CollectCalls) (world : World) : World × Bool :=
  collectEntries calls world world.running

/-- What the scan is answered before its loop. -/
structure ScanCalls where
  collect : Nat → CollectCalls
  latestAnswers : Bool
  expireAnswers : Bool
  expireNow : Moment
  expiredAt : Moment
  closeAnswers : Bool
  closedAt : Moment
  openAnswers : Bool

def expireStale (requests : Requests) (now writtenAt : Moment) : Requests :=
  match now.shift (-(max 1 defaultRequestTtlSeconds)) with
  | none => requests
  | some cutoff =>
      (staleRequests requests (isoText cutoff)).foldl (fun table requestId =>
        (finish table requestId .expired writtenAt (expireNote defaultRequestTtlSeconds)).getD table) requests

/-- The run as `close_finished` joins it. -/
def endOf (row : JobRunRow) : JobRunEnd := ⟨row.logId, row.status, row.finishedAt⟩

def closeFinished (requests : Requests) (runs : JobRunTable) (writtenAt : Moment) : Requests :=
  (finishedRequests ⟨requests, 0, runs.rows.map endOf⟩).foldl (fun table ended =>
    (write table ended.1 (some .started) (finished .done writtenAt (closeNote ended.2))).getD table) requests

/-- A failure of the first sweep leaves out the second. -/
def sweepRunRequests (world : World) (calls : ScanCalls) : World :=
  if calls.expireAnswers then
    let expired := expireStale world.requests calls.expireNow calls.expiredAt
    { world with requests := if calls.closeAnswers then closeFinished expired world.runs calls.closedAt else expired }
  else
    world

def openRunRequests (requests : Requests) (answers : Bool) (appCommandId : String) : Bool :=
  answers &&
    ((requests.rows.filter fun row => row.appCommandId = appCommandId && openStatuses.contains row.status).argmax
      Request.requestId).any fun row => row.status = .pending

structure ScanInput where
  singlePass : Bool
  calls : ScanCalls
  commands : List (AppCommand × Turn)
  ids_nodup : (commands.map fun pair => pair.1.appCommandId).Nodup

def runSchedulerScan (claimant : Claimant) (world : World) (input : ScanInput) : World × List Start :=
  let collected := collectRunningCommands input.calls.collect world
  if collected.2 && input.calls.latestAnswers then
    let swept := sweepRunRequests collected.1 input.calls
    scanCommands claimant input.singlePass (openRunRequests swept.requests input.calls.openAnswers) swept
      input.commands
  else
    (collected.1, [])

/-! ## What a start does -/

/-- A `sync` command whose id a running row of this host holds. -/
def heldElsewhere (claimant : Claimant) (world : World) (command : AppCommand) : Bool :=
  command.runMode.mode = .sync && strip command.appCommandId ≠ "" &&
    keyHeld world.runs (strip command.appCommandId) claimant.host

theorem asciiLower_running : asciiLower "running" = "running" := by decide +kernel

theorem claimRun_eq_none_iff (claimant : Claimant) (world : World) (command : AppCommand)
    (request : Option Request) (calls : StartCalls) :
    claimRun claimant world command request calls = none ↔ heldElsewhere claimant world command = true := by
  have host : (startedRun claimant command request world.newPid calls.startedAt).hostOf claimant = claimant.host := by
    simp [JobRun.hostOf, startedRun]
  have fresh : world.runs.lookup world.nextLogId = none := world.runs.lookup_nextKey world.lastLogId
  rw [claimRun, insertJobRun_eq_none_iff fresh, host]
  cases mode : command.runMode.mode with
  | async => simp [startedRun, JobRun.claimKeyOf, heldElsewhere, mode]
  | sync =>
    by_cases blank : strip command.appCommandId = ""
    · simp [startedRun, JobRun.claimKeyOf, heldElsewhere, mode, blank]
    · simp [startedRun, JobRun.claimKeyOf, heldElsewhere, mode, blank, asciiLower_running]

def StartCalls.reachesClaim (calls : StartCalls) : Bool := calls.spawns && calls.markerReads && calls.insertAnswers

/-- What a start does: no child, a child and no answer, a refused claim, or a recorded run. -/
theorem startAppCommand_cases (claimant : Claimant) (world : World) (command : AppCommand)
    (request : Option Request) (calls : StartCalls) :
    (calls.spawns = false ∧ startAppCommand claimant world command request calls = (world, .raised)) ∨
    (calls.spawns = true ∧ calls.reachesClaim = false ∧
      startAppCommand claimant world command request calls = (world.spawn command, .raised)) ∨
    (calls.reachesClaim = true ∧ heldElsewhere claimant world command = true ∧
      startAppCommand claimant world command request calls =
        (if calls.stops then (world.spawn command).ended world.newPid else world.spawn command,
          if calls.eventWrites then .returned else .raised)) ∨
    (calls.reachesClaim = true ∧ heldElsewhere claimant world command = false ∧
      ∃ runs, claimRun claimant world command request calls = some runs ∧
        startAppCommand claimant world command request calls =
          (recorded world runs command request calls, if calls.eventWrites then .returned else .raised)) := by
  cases spawns : calls.spawns with
  | false => exact Or.inl ⟨rfl, by simp [startAppCommand, spawns]⟩
  | true =>
    cases answers : calls.markerReads && calls.insertAnswers with
    | false =>
      refine Or.inr (Or.inl ⟨rfl, ?_, ?_⟩)
      · rw [StartCalls.reachesClaim, spawns, Bool.true_and, answers]
      · rw [startAppCommand, spawns, ← Bool.not_and, answers]
        rfl
    | true =>
      have reaches : calls.reachesClaim = true := by
        rw [StartCalls.reachesClaim, spawns, Bool.true_and, answers]
      have unfolded : startAppCommand claimant world command request calls =
          match claimRun claimant world command request calls with
          | none =>
            (if calls.stops then (world.spawn command).ended world.newPid else world.spawn command,
              if calls.eventWrites then .returned else .raised)
          | some runs =>
            (recorded world runs command request calls, if calls.eventWrites then .returned else .raised) := by
        rw [startAppCommand, spawns, ← Bool.not_and, answers]
        rfl
      refine Or.inr (Or.inr ?_)
      cases claimed : claimRun claimant world command request calls with
      | none =>
        rw [claimed] at unfolded
        exact Or.inl ⟨reaches, (claimRun_eq_none_iff _ _ _ _ _).mp claimed, unfolded⟩
      | some runs =>
        rw [claimed] at unfolded
        have free : heldElsewhere claimant world command = false := by
          rw [← Bool.not_eq_true, ← claimRun_eq_none_iff claimant world command request calls, claimed]
          simp
        exact Or.inr ⟨reaches, free, runs, rfl, unfolded⟩

end DbaBrain.Jobs.Daemon
