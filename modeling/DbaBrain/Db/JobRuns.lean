import DbaBrain.Foundation.Table
import DbaBrain.Lib.RunClaim
import DbaBrain.Lib.DueRule

/-!
# The job runs table

`job_runs` with its exclusive claim: a running row that names a claim key holds
it on its host, and the index refuses a second one.
-/

namespace DbaBrain.Db.JobRuns

open DbaBrain.Foundation DbaBrain.Foundation.Text DbaBrain.Lib DbaBrain.Lib.RunClaim

/-- A row of `job_runs`. -/
structure JobRunRow where
  logId : Nat
  createdAt : String
  startedAt : Option String
  finishedAt : Option String
  jobCode : String
  level : String
  status : String
  message : String
  durationMs : Option Int
  errorText : Option String
  hostName : Option String
  claimKey : Option String
  metadata : Metadata
  deriving DecidableEq

/-- `lower(status) = 'running'`. -/
def JobRunRow.isRunning (row : JobRunRow) : Bool := asciiLower row.status = "running"

def JobRunRow.columns (row : JobRunRow) : DueRule.RunColumns where
  startedAt := row.startedAt
  createdAt := some row.createdAt
  finishedAt := row.finishedAt
  status := some row.status

/-- The row's own `host_name`. -/
def JobRunRow.host (row : JobRunRow) : String := strip (row.hostName.getD "")

/-- `ux_job_runs_claim`. -/
def claimEntry (row : JobRunRow) : Option (String × String) :=
  if row.isRunning then row.claimKey.map fun key => (key, row.hostName.getD "") else none

abbrev JobRunTable := Table JobRunRow.logId claimEntry

/-- What a caller of `insert_job_run` states. -/
structure JobRun where
  jobCode : String
  level : String
  status : String
  message : String
  startedAt : Option String
  finishedAt : Option String
  durationMs : Option Int
  errorText : Option String
  hostName : Option String
  claimKey : Option String
  metadata : Metadata

/-- The inserting process: its pid, its host and its node identity. -/
structure Claimant where
  pid : Int
  host : String
  node : String

/-- `item.host_name or socket.gethostname()`. -/
def JobRun.hostOf (item : JobRun) (claimant : Claimant) : String :=
  match item.hostName with
  | none => claimant.host
  | some host => if host = "" then claimant.host else host

def JobRun.claimKeyOf (item : JobRun) : Option String :=
  match item.claimKey with
  | none => none
  | some key => if strip key = "" then none else some (strip key)

/-- A row claims its key when it names one and is running. -/
def JobRun.claims (item : JobRun) : Bool :=
  asciiLower (strip item.status) = "running" && item.claimKeyOf.isSome

/-- Whose process owns the run: the child the row names, else the inserting process. -/
def claimPid (metadata : Metadata) (claimant : Claimant) : Int :=
  match metadata.pid with
  | .pid value => value
  | _ => claimant.pid

/-- The row `insert_job_run` writes. -/
def JobRun.row (item : JobRun) (logId : Nat) (createdAt : String) (claimant : Claimant) : JobRunRow where
  logId := logId
  createdAt := createdAt
  startedAt := item.startedAt
  finishedAt := item.finishedAt
  jobCode := item.jobCode
  level := item.level
  status := item.status
  message := item.message
  durationMs := item.durationMs
  errorText := item.errorText
  hostName := some (item.hostOf claimant)
  claimKey := item.claimKeyOf
  metadata :=
    if item.claims then
      item.metadata.claimed (claimPid item.metadata claimant) (item.hostOf claimant) claimant.node
    else
      item.metadata

theorem isRunning_row (item : JobRun) (logId : Nat) (createdAt : String) (claimant : Claimant) :
    (item.row logId createdAt claimant).isRunning = decide (asciiLower item.status = "running") := rfl

/-- `none` when the claim index refuses the row: `RunAlreadyClaimed`. -/
def insertJobRun (runs : JobRunTable) (logId : Nat) (createdAt : String) (claimant : Claimant) (item : JobRun) :
    Option JobRunTable :=
  runs.insert? (item.row logId createdAt claimant)

def keyHeld (runs : JobRunTable) (key host : String) : Bool :=
  runs.rows.any fun row => row.isRunning && row.claimKey = some key && row.hostName.getD "" = host

variable {runs : JobRunTable}

theorem keyHeld_iff {key host : String} :
    keyHeld runs key host = true ↔ ∃ row ∈ runs.rows, claimEntry row = some (key, host) := by
  simp only [keyHeld, List.any_eq_true, Bool.and_eq_true, decide_eq_true_eq]
  apply exists_congr
  intro row
  apply and_congr_right
  intro _
  cases running : row.isRunning with
  | false => simp [claimEntry, running]
  | true => simp [claimEntry, running]

/-- A row of a new id is refused exactly when it claims a key that is held. -/
theorem insertJobRun_eq_none_iff {logId : Nat} {createdAt : String} {claimant : Claimant} {item : JobRun}
    (fresh : runs.lookup logId = none) :
    insertJobRun runs logId createdAt claimant item = none ↔
      asciiLower item.status = "running" ∧
        ∃ key, item.claimKeyOf = some key ∧ keyHeld runs key (item.hostOf claimant) = true := by
  have entry : claimEntry (item.row logId createdAt claimant) =
      if asciiLower item.status = "running" then item.claimKeyOf.map fun key => (key, item.hostOf claimant) else none :=
    if_congr (by rw [isRunning_row, decide_eq_true_eq]) rfl rfl
  rw [insertJobRun, Table.insert?_eq_none_iff fresh, entry]
  constructor
  · rintro ⟨held, claims, other⟩
    rw [Option.ite_none_right_eq_some, Option.map_eq_some_iff] at claims
    obtain ⟨running, key, named, rfl⟩ := claims
    exact ⟨running, key, named, keyHeld_iff.mpr other⟩
  · rintro ⟨running, key, named, held⟩
    exact ⟨(key, item.hostOf claimant), by simp [running, named], keyHeld_iff.mp held⟩

/-- The columns `update_job_run` sets. -/
structure Closing where
  level : String
  status : String
  message : String
  finishedAt : Option String
  durationMs : Option Int
  errorText : Option String
  metadata : Metadata

def Closing.apply (closing : Closing) (row : JobRunRow) : JobRunRow :=
  { row with
    finishedAt := closing.finishedAt
    level := closing.level
    status := closing.status
    message := closing.message
    durationMs := closing.durationMs
    errorText := closing.errorText
    metadata := closing.metadata }

@[simp]
theorem Closing.logId_apply (closing : Closing) (row : JobRunRow) : (closing.apply row).logId = row.logId := rfl

/-- The rows after `update_job_run`, and whether a row was written. -/
def updateJobRun (runs : JobRunTable) (logId : Nat) (closing : Closing) (onlyIfRunning : Bool) :
    Option (JobRunTable × Bool) :=
  let matching := fun row : JobRunRow => row.logId = logId && (!onlyIfRunning || row.isRunning)
  (runs.update? matching closing.apply).map fun next => (next, runs.rows.any matching)

section

variable {runs next : JobRunTable} {logId : Nat} {closing : Closing} {onlyIfRunning written : Bool}

theorem rows_updateJobRun (accepted : updateJobRun runs logId closing onlyIfRunning = some (next, written)) :
    next.rows = runs.rows.map fun row =>
      if row.logId = logId && (!onlyIfRunning || row.isRunning) then closing.apply row else row := by
  simp only [updateJobRun, Option.map_eq_some_iff, Prod.mk.injEq] at accepted
  obtain ⟨_, updated, rfl, _⟩ := accepted
  exact Table.rows_of_update? updated

theorem lookup_updateJobRun (accepted : updateJobRun runs logId closing onlyIfRunning = some (next, written))
    (other : Nat) :
    next.lookup other = (runs.lookup other).map fun row =>
      if other = logId ∧ (onlyIfRunning = false ∨ row.isRunning = true) then closing.apply row else row := by
  simp only [updateJobRun, Option.map_eq_some_iff, Prod.mk.injEq] at accepted
  obtain ⟨_, updated, rfl, _⟩ := accepted
  rw [Table.lookup_update? closing.logId_apply updated]
  cases found : runs.lookup other with
  | none => rfl
  | some row =>
    obtain rfl := Table.key_of_lookup found
    simp

theorem lookup_updateJobRun_of_ne (accepted : updateJobRun runs logId closing onlyIfRunning = some (next, written))
    {other : Nat} (different : other ≠ logId) : next.lookup other = runs.lookup other := by
  simp [lookup_updateJobRun accepted, different]

/-- A write that closes its row is never refused. -/
theorem updateJobRun_isSome (closes : asciiLower closing.status ≠ "running") :
    (updateJobRun runs logId closing onlyIfRunning).isSome = true := by
  rw [updateJobRun, Option.isSome_map]
  apply Table.update?_isSome closing.logId_apply
  intro row _ _
  exact Or.inl (by simp [claimEntry, JobRunRow.isRunning, Closing.apply, closes])

end

def jobRunStartedSince (runs : JobRunTable) (jobCode since : String) : Bool :=
  runs.rows.any fun row => row.jobCode = jobCode && row.startedAt.any fun start => decide (since ≤ start)

theorem jobRunStartedSince_iff {jobCode since : String} :
    jobRunStartedSince runs jobCode since = true ↔
      ∃ row ∈ runs.rows, row.jobCode = jobCode ∧ ∃ start, row.startedAt = some start ∧ since ≤ start := by
  simp [jobRunStartedSince, Option.any_eq_true]

/-- One character of a `LIKE` pattern: `_` stands for any, and letters match in either case. -/
def likeChar (pattern c : Char) : Bool := pattern = '_' || pattern.toLower = c.toLower

/-- `text LIKE 'pattern%'`. -/
def likePrefix : List Char → List Char → Bool
  | [], _ => true
  | _ :: _, [] => false
  | pattern :: patterns, c :: rest => likeChar pattern c && likePrefix patterns rest

def fetchRunningJobRuns (runs : JobRunTable) (jobCodePrefix : String) : List JobRunRow :=
  (runs.rows.filter fun row => row.isRunning && likePrefix jobCodePrefix.toList row.jobCode.toList).mergeSort
    fun first second => first.logId ≤ second.logId

theorem mem_fetchRunningJobRuns {jobCodePrefix : String} {row : JobRunRow} :
    row ∈ fetchRunningJobRuns runs jobCodePrefix ↔
      row ∈ runs.rows ∧ row.isRunning = true ∧ likePrefix jobCodePrefix.toList row.jobCode.toList = true := by
  simp [fetchRunningJobRuns]

theorem fetchRunningJobRuns_nodup (runs : JobRunTable) (jobCodePrefix : String) :
    ((fetchRunningJobRuns runs jobCodePrefix).map JobRunRow.logId).Nodup := by
  refine ((List.mergeSort_perm _ _).map JobRunRow.logId).nodup_iff.mpr ?_
  exact runs.keys_nodup.sublist (List.filter_sublist.map JobRunRow.logId)

/-- The newest run of each job code: the row with the greatest `log_id`. -/
def latestJobRun (runs : JobRunTable) (jobCode : String) : Option JobRunRow :=
  (runs.rows.filter fun row => row.jobCode = jobCode).argmax JobRunRow.logId

/-! ## Passes that close open rows -/

/-- The process that judges open rows, and what it can see. -/
structure Observer where
  host : String
  node : String
  now : Coerce.Instant
  pidAlive : Int → Bool
  /-- The clock when it closes the row of an id. -/
  closedAt : Nat → String

/-- The liveness reading of the row's owner, which only this host's processes have. -/
def Observer.ownerAlive (observer : Observer) (row : JobRunRow) : Option Bool :=
  match claimOwner row.metadata row.host with
  | (some pid, host) => if host = observer.host then some (observer.pidAlive pid) else none
  | (none, _) => none

/-- Each fetched row is judged as it was read, and written when the judgement closes it. -/
def closeEach (judge : JobRunRow → Option Closing) (onlyIfRunning : Bool) (runs : JobRunTable)
    (fetched : List JobRunRow) : JobRunTable :=
  fetched.foldl (fun runs row =>
    match judge row with
    | none => runs
    | some closing =>
        match updateJobRun runs row.logId closing onlyIfRunning with
        | none => runs
        | some (next, _) => next) runs

/-- The row a judgement leaves. -/
def settled (judge : JobRunRow → Option Closing) (row : JobRunRow) : JobRunRow :=
  match judge row with
  | none => row
  | some closing => closing.apply row

section

variable {judge : JobRunRow → Option Closing} {onlyIfRunning : Bool} {runs : JobRunTable} {row : JobRunRow}

@[simp]
theorem settled_of_none (kept : judge row = none) : settled judge row = row := by
  rw [settled, kept]

@[simp]
theorem logId_settled (judge : JobRunRow → Option Closing) (row : JobRunRow) :
    (settled judge row).logId = row.logId := by
  rw [settled]
  cases judge row with
  | none => rfl
  | some closing => rfl

/-- One row of a pass: its own row is settled, and no other changes. -/
theorem lookup_closeEach_one (closes : ∀ closing, judge row = some closing → asciiLower closing.status ≠ "running")
    (found : runs.lookup row.logId = some row) (running : row.isRunning = true) (other : Nat) :
    (closeEach judge onlyIfRunning runs [row]).lookup other =
      if other = row.logId then some (settled judge row) else runs.lookup other := by
  simp only [closeEach, List.foldl_cons, List.foldl_nil, settled]
  cases judged : judge row with
  | none =>
    rcases eq_or_ne other row.logId with rfl | different
    · simpa using found
    · simp [different]
  | some closing =>
    obtain ⟨⟨next, written⟩, accepted⟩ : ∃ result, updateJobRun runs row.logId closing onlyIfRunning = some result :=
      Option.isSome_iff_exists.mp (updateJobRun_isSome (closes closing judged))
    simp only [accepted]
    rcases eq_or_ne other row.logId with rfl | different
    · rw [lookup_updateJobRun accepted, found]
      simp [running]
    · rw [if_neg different, lookup_updateJobRun_of_ne accepted different]

/-- A pass settles every row it fetched, and leaves the others. -/
theorem lookup_closeEach {fetched : List JobRunRow}
    (closes : ∀ row closing, judge row = some closing → asciiLower closing.status ≠ "running")
    (once : (fetched.map JobRunRow.logId).Nodup)
    (present : ∀ row ∈ fetched, runs.lookup row.logId = some row ∧ row.isRunning = true) (logId : Nat) :
    (closeEach judge onlyIfRunning runs fetched).lookup logId =
      (runs.lookup logId).map fun row => if row ∈ fetched then settled judge row else row := by
  induction fetched generalizing runs with
  | nil => simp [closeEach]
  | cons head rest ih =>
    obtain ⟨found, running⟩ := present head List.mem_cons_self
    obtain ⟨apart, onceRest⟩ := List.nodup_cons.mp once
    have first : ∀ other, (closeEach judge onlyIfRunning runs [head]).lookup other =
        if other = head.logId then some (settled judge head) else runs.lookup other :=
      lookup_closeEach_one (closes head) found running
    have split : closeEach judge onlyIfRunning runs (head :: rest) =
        closeEach judge onlyIfRunning (closeEach judge onlyIfRunning runs [head]) rest := rfl
    have others : ∀ row ∈ rest, row.logId ≠ head.logId := by
      intro row member same
      exact apart (same ▸ List.mem_map_of_mem member)
    rw [split, ih onceRest, first]
    · by_cases own : logId = head.logId
      · have gone : settled judge head ∉ rest := fun member => others _ member (logId_settled judge head)
        rw [if_pos own, own, found]
        simp [gone]
      · rw [if_neg own]
        cases looked : runs.lookup logId with
        | none => rfl
        | some row =>
          have different : row ≠ head := by
            rintro rfl
            exact own (Table.key_of_lookup looked).symm
          simp [different]
    · intro row member
      rw [first, if_neg (others row member)]
      exact present row (List.mem_cons_of_mem head member)

end

end DbaBrain.Db.JobRuns
