import DbaBrain.Foundation.Calendar
import DbaBrain.Foundation.Table
import DbaBrain.Foundation.Text

/-!
# The run-request table

`app_command_requests` and the statements the queue runs on it.  A request is
never deleted here; its status moves, and one pending request stands for a
command at a time.
-/

namespace DbaBrain.Db.RunRequests

open DbaBrain.Foundation DbaBrain.Foundation.Calendar

inductive Status
  | pending
  | claimed
  | started
  | done
  | cancelled
  | expired
  deriving DecidableEq

def openStatuses : List Status := [.pending, .claimed, .started]

def Status.isFinal (status : Status) : Bool := !openStatuses.contains status

structure Request where
  requestId : Nat
  appCommandId : String
  status : Status
  requestedBy : String
  requestSource : String
  requestedAt : String
  claimedAt : Option String
  startedAt : Option String
  finishedAt : Option String
  jobRunId : Option Int
  note : String
  deriving DecidableEq

/-- `ux_app_command_requests_pending`. -/
def pendingCommand (row : Request) : Option String :=
  if row.status = .pending then some row.appCommandId else none

abbrev Requests := Table Request.requestId pendingCommand

def defaultRequestTtlSeconds : Int := 900

def pendingFor (requests : Requests) (appCommandId : String) : Option Request :=
  requests.rows.find? fun row => row.appCommandId = appCommandId && row.status = .pending

variable {requests : Requests}
variable {appCommandId : String} {requestId : Nat}

theorem pendingFor_eq_some {row : Request} (found : pendingFor requests appCommandId = some row) :
    requests.lookup row.requestId = some row ∧ row.appCommandId = appCommandId ∧ row.status = .pending := by
  have chosen := List.find?_some found
  simp only [Bool.and_eq_true, decide_eq_true_eq] at chosen
  exact ⟨Table.lookup_of_mem (List.mem_of_find?_eq_some found), chosen.1, chosen.2⟩

theorem pendingFor_eq_none_iff :
    pendingFor requests appCommandId = none ↔
      ∀ row ∈ requests.rows, row.appCommandId = appCommandId → row.status ≠ .pending := by
  simp [pendingFor]

def statusOf (requests : Requests) (requestId : Nat) : Option Status :=
  (requests.lookup requestId).map Request.status

/-! ## Writes -/

/-- `UPDATE .. WHERE request_id = ?`, with `AND status = ?` when a status is required. -/
def write (requests : Requests) (requestId : Nat) (required : Option Status)
    (change : Request → Request) : Option Requests :=
  requests.update? (fun row => row.requestId = requestId && required.all fun status => row.status = status)
    change

/-- A change of columns other than the key and the command. -/
structure KeepsRequest (change : Request → Request) (status : Status) : Prop where
  requestId : ∀ row, (change row).requestId = row.requestId
  appCommandId : ∀ row, (change row).appCommandId = row.appCommandId
  status : ∀ row, (change row).status = status

section Write

variable {requests next : Requests} {requestId other : Nat} {required : Option Status} {status : Status}
  {change : Request → Request}

theorem lookup_write (keeps : KeepsRequest change status)
    (accepted : write requests requestId required change = some next) (other : Nat) :
    next.lookup other = (requests.lookup other).map fun row =>
      if other = requestId ∧ required.all (fun status => row.status = status) then change row else row := by
  rw [Table.lookup_update? keeps.requestId accepted]
  cases found : requests.lookup other with
  | none => rfl
  | some row =>
    obtain rfl := Table.key_of_lookup found
    simp

theorem lookup_write_of_ne (keeps : KeepsRequest change status)
    (accepted : write requests requestId required change = some next) (different : other ≠ requestId) :
    next.lookup other = requests.lookup other := by
  simp [lookup_write keeps accepted, different]

variable {row : Request}

/-- The written request, when it met the required status. -/
theorem lookup_write_self (keeps : KeepsRequest change status)
    (accepted : write requests requestId required change = some next) (found : requests.lookup requestId = some row)
    (meets : required.all (fun status => row.status = status) = true) : next.lookup requestId = some (change row) := by
  simp [lookup_write keeps accepted, found, meets]

theorem statusOf_write (keeps : KeepsRequest change status)
    (accepted : write requests requestId required change = some next) (other : Nat) :
    statusOf next other = (statusOf requests other).map fun before =>
      if other = requestId ∧ required.all (fun status => before = status) then status else before := by
  rw [statusOf, lookup_write keeps accepted, statusOf, Option.map_map, Option.map_map]
  congr 1
  funext row
  simp only [Function.comp]
  split
  · exact keeps.status row
  · rfl

/-- A write that does not queue a request is never refused. -/
theorem write_isSome (keeps : KeepsRequest change status) (queued : status ≠ .pending) :
    (write requests requestId required change).isSome = true := by
  apply Table.update?_isSome keeps.requestId
  intro row _ _
  exact Or.inl (by simp [pendingCommand, keeps.status, queued])

theorem status_write (keeps : KeepsRequest change status)
    (accepted : write requests requestId required change = some next) (found : next.lookup other = some row) :
    ∃ before, requests.lookup other = some before ∧
      ((other = requestId ∧ required.all (fun status => before.status = status) = true ∧ row = change before) ∨
        row = before) := by
  rw [lookup_write keeps accepted, Option.map_eq_some_iff] at found
  obtain ⟨before, present, rfl⟩ := found
  refine ⟨before, present, ?_⟩
  split
  · rename_i written
    exact Or.inl ⟨written.1, written.2, rfl⟩
  · exact Or.inr rfl

end Write

/-- `INSERT` of a pending request; the index refuses a second one for a command. -/
def insertRequest (requests : Requests) (requestId : Nat) (code requestedBy source : String)
    (requestedAt : Moment) (note : String) : Option Requests :=
  requests.insert?
    { requestId := requestId, appCommandId := code, status := .pending, requestedBy := requestedBy,
      requestSource := source, requestedAt := isoText requestedAt, claimedAt := none, startedAt := none,
      finishedAt := none, jobRunId := none, note := note }

/-- A request is refused for an id in use, or when its command already waits. -/
theorem insertRequest_isSome_iff {code requestedBy source note : String} {requestedAt : Moment} :
    (insertRequest requests requestId code requestedBy source requestedAt note).isSome = true ↔
      requests.lookup requestId = none ∧ pendingFor requests code = none := by
  rw [insertRequest, Table.insert?_isSome_iff, pendingFor_eq_none_iff]
  apply and_congr_right
  intro _
  constructor
  · intro free row member same waits
    exact free code (by simp [pendingCommand]) row member (by simp [pendingCommand, waits, same])
  · intro none_waits entry covered other member same
    simp only [pendingCommand, if_true, Option.some.injEq] at covered
    simp only [pendingCommand, Option.ite_none_right_eq_some, Option.some.injEq] at same
    exact none_waits other member (same.2.trans covered.symm) same.1

/-- The columns `_finish` sets. -/
def finished (status : Status) (finishedAt : Moment) (note : String) (row : Request) : Request :=
  { row with status := status, finishedAt := some (isoText finishedAt), note := note }

def finish (requests : Requests) (requestId : Nat) (status : Status) (finishedAt : Moment) (note : String) :
    Option Requests :=
  write requests requestId none (finished status finishedAt note)

def claimedBy (claimedAt : Moment) (row : Request) : Request :=
  { row with status := .claimed, claimedAt := some (isoText claimedAt) }

def setClaimed (requests : Requests) (requestId : Nat) (claimedAt : Moment) : Option Requests :=
  write requests requestId (some .pending) (claimedBy claimedAt)

def startedBy (startedAt : Moment) (jobRunId : Option Int) (row : Request) : Request :=
  { row with status := .started, startedAt := some (isoText startedAt), jobRunId := jobRunId }

/-- `fk_app_command_requests_job_run`: a request that is there is to name a run that is not. -/
def breaksRun (requests : Requests) (runIds : List Int) (requestId : Nat) (jobRunId : Option Int) : Bool :=
  (requests.lookup requestId).isSome && jobRunId.any fun logId => logId ∉ runIds

/-- Refused where the run is not one of `job_runs`. -/
def markStarted (requests : Requests) (runIds : List Int) (requestId : Nat) (startedAt : Moment)
    (jobRunId : Option Int) : Option Requests :=
  if breaksRun requests runIds requestId jobRunId then none
  else write requests requestId none (startedBy startedAt jobRunId)

def markDone (requests : Requests) (requestId : Nat) (finishedAt : Moment) (note : String) : Option Requests :=
  finish requests requestId .done finishedAt note

def released (note : String) (row : Request) : Request :=
  { row with status := .pending, claimedAt := none, note := note }

/-- Refused by the index when another request of the command waits. -/
def release (requests : Requests) (requestId : Nat) (note : String) : Option Requests :=
  write requests requestId (some .claimed) (released note)

theorem keeps_finished (status : Status) (finishedAt : Moment) (note : String) :
    KeepsRequest (finished status finishedAt note) status :=
  ⟨fun _ => rfl, fun _ => rfl, fun _ => rfl⟩

theorem keeps_claimedBy (claimedAt : Moment) : KeepsRequest (claimedBy claimedAt) .claimed :=
  ⟨fun _ => rfl, fun _ => rfl, fun _ => rfl⟩

theorem keeps_startedBy (startedAt : Moment) (jobRunId : Option Int) :
    KeepsRequest (startedBy startedAt jobRunId) .started :=
  ⟨fun _ => rfl, fun _ => rfl, fun _ => rfl⟩

theorem markStarted_of_mem {runIds : List Int} {startedAt : Moment} {logId : Int} (there : logId ∈ runIds) :
    markStarted requests runIds requestId startedAt (some logId) =
      write requests requestId none (startedBy startedAt (some logId)) := by
  simp [markStarted, breaksRun, there]

theorem keeps_released (note : String) : KeepsRequest (released note) .pending :=
  ⟨fun _ => rfl, fun _ => rfl, fun _ => rfl⟩

/-! ## Taking a request and putting it back -/

section Queue

variable {requests next : Requests} {row : Request}

theorem pendingFor_setClaimed {appCommandId : String} {claimedAt : Moment}
    (waiting : pendingFor requests appCommandId = some row)
    (written : setClaimed requests row.requestId claimedAt = some next) :
    pendingFor next appCommandId = none := by
  obtain ⟨present, command, pending⟩ := pendingFor_eq_some waiting
  rw [pendingFor_eq_none_iff]
  intro other member same waits
  obtain ⟨before, found, ⟨own, _, rfl⟩ | rfl⟩ :=
    status_write (keeps_claimedBy claimedAt) written (Table.lookup_of_mem member)
  · simp [claimedBy] at waits
  · have twin := Table.eq_of_index_eq (Table.mem_of_lookup found) (Table.mem_of_lookup present)
      (show pendingCommand other = some appCommandId by simp [pendingCommand, waits, same])
      (show pendingCommand row = some appCommandId by simp [pendingCommand, pending, command])
    have claimed := lookup_write_self (keeps_claimedBy claimedAt) written present (by simp [pending])
    rw [← twin] at claimed
    have changed := Option.some.inj ((Table.lookup_of_mem member).symm.trans claimed)
    rw [changed] at waits
    simp [claimedBy] at waits

/-- A claimed request returns to the queue unless another of its command waits. -/
theorem release_isSome_iff {note : String} (found : requests.lookup row.requestId = some row)
    (claimed : row.status = .claimed) :
    (release requests row.requestId note).isSome = true ↔ pendingFor requests row.appCommandId = none := by
  have member := Table.mem_of_lookup found
  constructor
  · intro accepted
    rw [pendingFor_eq_none_iff]
    intro other present same waits
    have different : other.requestId ≠ row.requestId := by
      intro equal
      rw [Table.eq_of_key_eq present member equal, claimed] at waits
      simp at waits
    have refused : release requests row.requestId note = none :=
      Table.update?_eq_none (keeps_released note).requestId member (by simp [claimed])
        (show pendingCommand (released note row) = some row.appCommandId by simp [pendingCommand, released])
        present (by simp [different]) (by simp [pendingCommand, waits, same])
    simp [refused] at accepted
  · intro nothing
    rw [pendingFor_eq_none_iff] at nothing
    apply Table.update?_isSome_of_apart (keeps_released note).requestId
    -- Only the released row gains an entry, and no waiting row has it.
    have entry {one : Request} (present : one ∈ requests.rows) {code : String}
        (covered : pendingCommand (if (decide (one.requestId = row.requestId) &&
          (some Status.claimed).all fun status => one.status = status) = true then released note one else one) =
            some code) :
        one = row ∧ code = row.appCommandId ∨ one.status = .pending ∧ code = one.appCommandId := by
      split at covered
      · rename_i chosen
        simp only [Bool.and_eq_true, decide_eq_true_eq] at chosen
        obtain rfl := Table.eq_of_key_eq present member chosen.1
        exact Or.inl ⟨rfl, by simpa [pendingCommand, released] using covered.symm⟩
      · simp only [pendingCommand, Option.ite_none_right_eq_some, Option.some.injEq] at covered
        exact Or.inr ⟨covered.1, covered.2.symm⟩
    intro one present other alsoPresent different code covered again
    rcases entry present covered with ⟨rfl, rfl⟩ | ⟨waits, rfl⟩
    · rcases entry alsoPresent again with ⟨rfl, _⟩ | ⟨waits, same⟩
      · exact different rfl
      · exact nothing other alsoPresent same.symm waits
    · rcases entry alsoPresent again with ⟨rfl, same⟩ | ⟨alsoWaits, same⟩
      · exact nothing one present same waits
      · apply different
        exact congrArg Request.requestId (Table.eq_of_index_eq present alsoPresent
          (show pendingCommand one = some one.appCommandId by simp [pendingCommand, waits])
          (by simp [pendingCommand, alsoWaits, same]))

end Queue

end DbaBrain.Db.RunRequests
