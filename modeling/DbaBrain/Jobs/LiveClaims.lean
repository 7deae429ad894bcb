import DbaBrain.BackupRestore.Schedule
import DbaBrain.Jobs.StartupRecovery

/-!
# A live run keeps its row

Daemon startups and backup or restore sweeps, in any order and from any host,
close open rows.  The rows of live runs stay as they are.
-/

namespace DbaBrain.Jobs.LiveClaims

open DbaBrain.Foundation DbaBrain.Foundation.Text DbaBrain.Lib.Coerce DbaBrain.Lib.DueRule DbaBrain.Lib.RunClaim
open DbaBrain.Db.JobRuns DbaBrain.BackupRestore.Schedule DbaBrain.Jobs.Daemon DbaBrain.Jobs.StartupRecovery

/-- One pass that closes rows. -/
inductive Recovery
  | startup (startup : Startup)
  | sweep (sweep : Sweep)

def recover (runs : JobRunTable) : Recovery → JobRunTable
  | .startup startup => recoverStaleRunningJobs startup runs
  | .sweep sweep => reapStaleRuns sweep runs

/-- The process the row records is alive on the observer's host. -/
def SeesAlive (observer : Observer) (row : JobRunRow) : Prop :=
  AliveHere row.metadata row.host observer.host observer.pidAlive

/-- The row records a process of another host, and does not name the observer's node. -/
def SeesElsewhere (observer : Observer) (row : JobRunRow) : Prop :=
  OwnedElsewhere row.metadata row.host observer.host observer.node

def HeldAtStartup (startup : Startup) (row : JobRunRow) : Prop :=
  (SeesAlive startup.observer row ∧ startup.removed row = false) ∨
    (SeesElsewhere startup.observer row ∧ (startup.removed row = true → startup.anotherNode row = true) ∧
      ∀ command lastRun, startup.commands (strip row.jobCode) = some command → startup.rowTime row = some lastRun →
        WithinGrace (elapsedSeconds lastRun startup.observer.now) command.timeout)

/-- A sweep must leave the row: its process is alive here, or it is another host's, within the grace
of its job code's timeout. -/
def HeldInSweep (sweep : Sweep) (row : JobRunRow) : Prop :=
  SeesAlive sweep.observer row ∨
    (SeesElsewhere sweep.observer row ∧
      ∀ timeout started, sweep.timeouts row.jobCode = some timeout → sweep.runTime row = some started →
        WithinGrace (elapsedSeconds started sweep.observer.now) timeout)

def Held (row : JobRunRow) : Recovery → Prop
  | .startup startup => HeldAtStartup startup row
  | .sweep sweep => HeldInSweep sweep row

def ClosedAtOnce (startup : Startup) (row : JobRunRow) : Prop :=
  ((claimOwner row.metadata row.host).1 = none ∧ (startup.rowTime row).isSome = true ∧
    ∃ command, startup.commands (strip row.jobCode) = some command ∧
      ∀ role, startup.nodeRole = some role → runsOn command.nodeRole role = true) ∨
    (SeesElsewhere startup.observer row ∧ startup.removed row = true ∧ startup.anotherNode row = false)

/-! ## What one pass judges -/

variable {row : JobRunRow} {startup : Startup} {runs : JobRunTable} {logId : Nat}

theorem SeesAlive.ownerAlive {observer : Observer} (alive : SeesAlive observer row) :
    observer.ownerAlive row = some true := by
  obtain ⟨pid, owner, _, living⟩ := alive
  rw [Observer.ownerAlive, owner]
  simp [living]

theorem HeldAtStartup.verdict_reap {command : ConfiguredCommand} {lastRun : Instant} (held : HeldAtStartup startup row)
    (configured : startup.commands (strip row.jobCode) = some command) (read : startup.rowTime row = some lastRun) :
    (startup.verdict row command (elapsedSeconds lastRun startup.observer.now)).reap = false := by
  rcases held with ⟨alive, _⟩ | ⟨elsewhere, _, within⟩
  · rw [Startup.verdict, alive.ownerAlive]
    obtain ⟨pid, owner, _, _⟩ := alive
    exact startupVerdict_reap_of_alive owner
  · exact elsewhere.startupVerdict_reap (within command lastRun configured read) _

theorem HeldAtStartup.judge_eq_none (held : HeldAtStartup startup row) : startup.judge row = none := by
  fun_cases Startup.judge startup row with
  | case2 running missing closed =>
    simp only [Bool.and_eq_true, Bool.not_eq_true'] at closed
    obtain ⟨noOther, gone⟩ := closed
    rcases held with ⟨_, notRemoved⟩ | ⟨_, names, _⟩
    · rw [gone] at notRemoved
      cases notRemoved
    · rw [names gone] at noOther
      cases noOther
  | case6 running command configured thisRole lastRun read elapsed reap =>
    have kept := held.verdict_reap configured read
    rw [reap] at kept
    cases kept
  | _ => rfl

variable {sweep : Sweep} {closing : Closing} {judge : JobRunRow → Option Closing} {onlyIfRunning : Bool}
  {jobCodePrefix : String}

theorem HeldInSweep.judge_eq_none (held : HeldInSweep sweep row) : sweep.judge row = none := by
  rw [Sweep.judge]
  split
  · rfl
  · rename_i timeout configured
    split
    · rfl
    · split
      · rfl
      · rename_i started read
        have kept : (sweep.verdict row timeout (elapsedSeconds started sweep.observer.now)).reap = false := by
          rw [Sweep.verdict, reapVerdict_of_ownerVerdict]
          rcases held with alive | ⟨elsewhere, within⟩
          · rw [alive.ownerAlive]
            obtain ⟨pid, owner, named, _⟩ := alive
            exact ownerVerdict_reap_of_alive owner named
          · exact elsewhere.ownerVerdict_reap (within timeout started configured read) _
        simp [kept]

theorem Startup.status_of_judge (judged : startup.judge row = some closing) : closing.status = "timeout" := by
  revert judged
  fun_cases Startup.judge startup row with
  | case2 | case6 =>
    intro judged
    cases judged
    rfl
  | _ =>
    intro judged
    cases judged

theorem Sweep.status_of_judge (judged : sweep.judge row = some closing) : closing.status = "TIMEOUT" := by
  revert judged
  fun_cases Sweep.judge sweep row with
  | case4 =>
    intro judged
    cases judged
    rfl
  | _ =>
    intro judged
    cases judged

/-! ## What passes leave -/

/-- A pass over the open rows of a prefix settles each of them, and leaves every other row. -/
theorem lookup_closeEach_fetched
    (closes : ∀ row closing, judge row = some closing → asciiLower closing.status ≠ "running") (logId : Nat) :
    (closeEach judge onlyIfRunning runs (fetchRunningJobRuns runs jobCodePrefix)).lookup logId =
      (runs.lookup logId).map fun row =>
        if row ∈ fetchRunningJobRuns runs jobCodePrefix then settled judge row else row := by
  apply lookup_closeEach closes (fetchRunningJobRuns_nodup runs jobCodePrefix)
  intro row fetched
  obtain ⟨member, running, _⟩ := mem_fetchRunningJobRuns.mp fetched
  exact ⟨Table.lookup_of_mem member, running⟩

theorem startup_closes (startup : Startup) (row : JobRunRow) (closing : Closing)
    (judged : startup.judge row = some closing) : asciiLower closing.status ≠ "running" := by
  rw [Startup.status_of_judge judged]
  decide +kernel

theorem sweep_closes (sweep : Sweep) (row : JobRunRow) (closing : Closing)
    (judged : sweep.judge row = some closing) : asciiLower closing.status ≠ "running" := by
  rw [Sweep.status_of_judge judged]
  decide +kernel

theorem lookup_closeEach_of_judge_none
    (closes : ∀ row closing, judge row = some closing → asciiLower closing.status ≠ "running") (left : judge row = none)
    (found : runs.lookup logId = some row) :
    (closeEach judge onlyIfRunning runs (fetchRunningJobRuns runs jobCodePrefix)).lookup logId = some row := by
  rw [lookup_closeEach_fetched closes, found, Option.map_some, settled_of_none left, ite_self]

/-- One pass leaves a row it must leave. -/
theorem recover_keeps {recovery : Recovery} (held : Held row recovery) (found : runs.lookup logId = some row) :
    (recover runs recovery).lookup logId = some row := by
  cases recovery with
  | startup startup =>
    have left : startup.judge row = none := HeldAtStartup.judge_eq_none held
    rw [recover, recoverStaleRunningJobs]
    exact lookup_closeEach_of_judge_none (startup_closes startup) left found
  | sweep sweep =>
    have left : sweep.judge row = none := HeldInSweep.judge_eq_none held
    rw [recover, reapStaleRuns]
    simp only [List.foldl_cons, List.foldl_nil]
    apply lookup_closeEach_of_judge_none (sweep_closes sweep) left
    apply lookup_closeEach_of_judge_none (sweep_closes sweep) left
    exact lookup_closeEach_of_judge_none (sweep_closes sweep) left found

/-- Passes that must each leave a row leave it. -/
theorem recoveries_keep {recoveries : List Recovery} (held : ∀ recovery ∈ recoveries, Held row recovery)
    (found : runs.lookup logId = some row) : (recoveries.foldl recover runs).lookup logId = some row := by
  induction recoveries generalizing runs with
  | nil => exact found
  | cons recovery rest ih =>
    refine ih (fun later member => held later (List.mem_cons_of_mem recovery member)) ?_
    exact recover_keeps (held recovery List.mem_cons_self) found

theorem strip_status_of_isRunning (running : row.isRunning = true) : asciiLower (strip row.status) = "running" := by
  have spelled : asciiLower row.status = "running" := of_decide_eq_true running
  rw [strip_eq_self_of_asciiLower spelled (by simp [isSpace]), spelled]

/-- A startup writes the open row its judge closes. -/
theorem lookup_recoverStaleRunningJobs (found : runs.lookup logId = some row) (running : row.isRunning = true) :
    (recoverStaleRunningJobs startup runs).lookup logId = some (settled startup.judge row) := by
  have fetched : row ∈ fetchRunningJobRuns runs "" :=
    mem_fetchRunningJobRuns.mpr ⟨Table.mem_of_lookup found, running, rfl⟩
  rw [recoverStaleRunningJobs, lookup_closeEach_fetched (startup_closes startup), found, Option.map_some,
    if_pos fetched]

theorem ClosedAtOnce.judge_isSome (closed : ClosedAtOnce startup row) (running : row.isRunning = true) :
    (startup.judge row).isSome = true := by
  rw [Startup.judge, if_neg (not_not_intro (strip_status_of_isRunning running))]
  rcases closed with ⟨noPid, read, command, configured, thisRole⟩ | ⟨_, gone, noOther⟩
  · obtain ⟨lastRun, started⟩ := Option.isSome_iff_exists.mp read
    obtain ⟨owner, host⟩ : ∃ host, claimOwner row.metadata row.host = (none, host) := ⟨_, Prod.ext noPid rfl⟩
    have sameRole : ¬ (startup.nodeRole.any fun role => !runsOn command.nodeRole role) = true := by
      simp only [Option.any_eq_true, not_exists, not_and, Bool.not_eq_true', Bool.not_eq_false]
      exact thisRole
    have reap : (startup.verdict row command (elapsedSeconds lastRun startup.observer.now)).reap = true := by
      rw [Startup.verdict, startupVerdict, host]
    simp only [configured, started]
    rw [if_neg sameRole, if_pos reap]
    rfl
  · have missing : startup.commands (strip row.jobCode) = none := by
      simp only [Startup.removed, Bool.and_eq_true] at gone
      exact Option.isNone_iff_eq_none.mp gone.1.1
    simp [missing, noOther, gone]

theorem status_of_closedAtOnce (found : runs.lookup logId = some row) (running : row.isRunning = true)
    (closed : ClosedAtOnce startup row) :
    ((recoverStaleRunningJobs startup runs).lookup logId).map JobRunRow.status = some "timeout" := by
  obtain ⟨closing, judged⟩ := Option.isSome_iff_exists.mp (closed.judge_isSome running)
  rw [lookup_recoverStaleRunningJobs found running, settled, judged, Option.map_some]
  exact congrArg some (Startup.status_of_judge judged)

/-- Passes leave the row of a live run: alive on the host that looks, or another host's within its
timeout and grace.  A startup closes at once a row that records no process, and one of a removed
command that another host's process holds for no other node. -/
theorem live_claims_kept :
    (∀ (runs : JobRunTable) (recoveries : List Recovery) (logId : Nat) (row : JobRunRow),
      runs.lookup logId = some row → (∀ recovery ∈ recoveries, Held row recovery) →
        (recoveries.foldl recover runs).lookup logId = some row) ∧
    ∀ (startup : Startup) (runs : JobRunTable) (logId : Nat) (row : JobRunRow),
      runs.lookup logId = some row → row.isRunning = true → ClosedAtOnce startup row →
        ((recoverStaleRunningJobs startup runs).lookup logId).map JobRunRow.status = some "timeout" := by
  constructor
  · intro runs recoveries logId row found held
    exact recoveries_keep held found
  · intro startup runs logId row found running closed
    exact status_of_closedAtOnce found running closed

section Estate

/-- A run of the worker, claimed without a node identity. -/
def workerRow : JobRunRow where
  logId := 1
  createdAt := "2026-10-01T01:00:00Z"
  startedAt := some "2026-10-01T01:00:00Z"
  finishedAt := none
  jobCode := "APP-METRICS"
  level := "logging"
  status := "running"
  message := "App command APP-METRICS started."
  durationMs := none
  errorText := none
  hostName := some "worker"
  claimKey := some "APP-METRICS"
  metadata := { Metadata.empty with claimPid := .pid 40, claimHost := "worker", appCommandId := "APP-METRICS" }

def workerTable : JobRunTable := ⟨[workerRow], by decide +kernel, by decide +kernel⟩

def metricsCommand : ConfiguredCommand where
  appCommandId := "APP-METRICS"
  runMode := ⟨.sync, 1⟩
  timeoutDisabled := false
  timeoutSeconds := 3600
  nodeRole := "all"

/-- A minute after the run started; the worker's pid 40 is alive. -/
def observerOn (host : String) : Observer where
  host := host
  node := ""
  now := ((asUtcDatetime readStamp (some "2026-10-01T01:01:00Z")).getD 0)
  pidAlive := fun pid => pid = 40
  closedAt := fun _ => "2026-10-01T01:01:00Z"

def masterStartup (commands : String → Option ConfiguredCommand) : Startup where
  observer := observerOn "master"
  commands := commands
  nodeRole := none
  fromIsoFormat := readStamp

def workerSweep : Sweep where
  observer := observerOn "worker"
  timeouts := fun _ => none
  fromIsoFormat := readStamp

theorem workerRow_elsewhere : SeesElsewhere (observerOn "master") workerRow :=
  ⟨40, "worker", by decide +kernel, by decide, by decide, by decide +kernel⟩

theorem workerRow_elapsed {commands : String → Option ConfiguredCommand} {lastRun : Instant}
    (read : (masterStartup commands).rowTime workerRow = some lastRun) :
    elapsedSeconds lastRun (masterStartup commands).observer.now = 60 := by
  have sixty : (runAnchor readStamp workerRow.columns).map
      (fun started => elapsedSeconds started (observerOn "master").now) = some 60 := by decide +kernel
  rw [show runAnchor readStamp workerRow.columns = some lastRun from read] at sixty
  exact Option.some.inj sixty

theorem live_claims_kept_workerRow :
    ([.startup (masterStartup fun _ => some metricsCommand), .sweep workerSweep].foldl recover workerTable).lookup 1 =
        some workerRow ∧
      ((recoverStaleRunningJobs (masterStartup fun _ => none) workerTable).lookup 1).map JobRunRow.status =
        some "timeout" := by
  constructor
  · refine live_claims_kept.1 workerTable _ 1 workerRow (by decide +kernel) ?_
    intro recovery member
    rcases List.mem_cons.mp member with rfl | later
    · refine Or.inr ⟨workerRow_elsewhere, fun gone => ?_, ?_⟩
      · cases gone
      · intro command lastRun configured read
        cases configured
        right
        rw [workerRow_elapsed read]
        decide
    · rw [List.mem_singleton.mp later]
      exact Or.inl ⟨40, by decide +kernel, by decide, by decide +kernel⟩
  · refine live_claims_kept.2 _ workerTable 1 workerRow (by decide +kernel) (by decide +kernel) ?_
    exact Or.inr ⟨workerRow_elsewhere, by decide +kernel, by decide +kernel⟩

/-- A startup that does not know the command closes another host's live run a minute old. -/
theorem removed_command_closes_other_hosts_run :
    ¬ ∀ (startup : Startup) (runs : JobRunTable) (logId : Nat) (row : JobRunRow), runs.lookup logId = some row →
      row.isRunning = true → SeesElsewhere startup.observer row →
      (∀ timeout lastRun, startup.rowTime row = some lastRun →
        timeout ≠ 0 → elapsedSeconds lastRun startup.observer.now < max timeout 0 + foreignHostGraceSeconds) →
      (recoverStaleRunningJobs startup runs).lookup logId = some row := by
  intro kept
  have closed : ((recoverStaleRunningJobs (masterStartup fun _ => none) workerTable).lookup 1).map JobRunRow.status =
      some "timeout" := by decide +kernel
  rw [kept (masterStartup fun _ => none) workerTable 1 workerRow (by decide +kernel) (by decide +kernel)
    workerRow_elsewhere] at closed
  · exact absurd closed (by decide)
  · intro timeout lastRun read _
    rw [workerRow_elapsed read]
    exact lt_of_lt_of_le (by decide) (Int.le_add_of_nonneg_left (le_max_right timeout 0))

end Estate

end DbaBrain.Jobs.LiveClaims
