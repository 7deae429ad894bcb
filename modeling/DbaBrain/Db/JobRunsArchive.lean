import DbaBrain.Db.JobRuns
import DbaBrain.Db.RunRequests

/-!
# Archiving old runs

`archive_old_job_runs` moves the runs older than a cutoff into their history,
batch by batch, and the requests that name them along with them.
-/

namespace DbaBrain.Db.JobRunsArchive

open DbaBrain.Foundation DbaBrain.Foundation.Calendar DbaBrain.Lib.RunClaim
open DbaBrain.Db.JobRuns DbaBrain.Db.RunRequests

/-- The columns a run keeps in the history: every one but its claim key. -/
structure ArchiveColumns where
  logId : Nat
  createdAt : String
  startedAt : Option String
  finishedAt : Option String
  jobCode : String
  level : String
  status : String
  message : String
  durationMs : Option Int
  errorText : Option String
  hostName : Option String
  metadata : Metadata

def archiveColumns (row : JobRunRow) : ArchiveColumns where
  logId := row.logId
  createdAt := row.createdAt
  startedAt := row.startedAt
  finishedAt := row.finishedAt
  jobCode := row.jobCode
  level := row.level
  status := row.status
  message := row.message
  durationMs := row.durationMs
  errorText := row.errorText
  hostName := row.hostName
  metadata := row.metadata

/-- A row of `job_runs_history`. -/
structure ArchivedRun where
  columns : ArchiveColumns
  archivedAt : String

def ArchivedRun.logId (run : ArchivedRun) : Nat := run.columns.logId

/-- The history has its own key and no index that refuses a row. -/
def noEntry (_ : ArchivedRun) : Option Unit := none

abbrev RunHistory := Table ArchivedRun.logId noEntry

/-- A row of `app_command_requests_history`, a table without a key. -/
structure ArchivedRequest where
  request : Request
  archivedAt : String

/-- The tables the archive touches; a store whose console was never used has no request tables. -/
structure Store where
  runs : JobRunTable
  history : RunHistory
  requests : Option Requests
  requestHistory : Option (List ArchivedRequest)

/-! ## The statements of one batch -/

def oldIds (runs : JobRunTable) (cutoff : String) : List Nat :=
  ((runs.rows.filter fun row => row.createdAt < cutoff).map JobRunRow.logId).mergeSort fun first second => first ≤ second

/-- `LIMIT`: a negative one is none. -/
def limited (batchSize : Int) (ids : List Nat) : List Nat := if batchSize < 0 then ids else ids.take batchSize.toNat

def pickIds (runs : JobRunTable) (cutoff : String) (batchSize : Int) : List Nat :=
  limited batchSize (oldIds runs cutoff)

/-- `INSERT INTO job_runs_history .. SELECT .. WHERE log_id IN (..)`. -/
def copyRuns (store : Store) (ids : List Nat) (archivedAt : String) : Option Store :=
  (Table.ofRows? (store.history.rows ++
    (store.runs.rows.filter fun row => row.logId ∈ ids).map fun row => ⟨archiveColumns row, archivedAt⟩)).map
      fun history => { store with history := history }

def namesRun (ids : List Nat) (row : Request) : Bool :=
  row.jobRunId.any fun jobRunId => ids.any fun logId => jobRunId = (logId : Int)

def archiveRequestsForRuns (store : Store) (ids : List Nat) (archivedAt : String) : Store :=
  match store.requests, store.requestHistory with
  | some requests, some moved =>
      { store with
        requests := some (requests.delete (namesRun ids))
        requestHistory := some (moved ++ (requests.rows.filter (namesRun ids)).map fun row => ⟨row, archivedAt⟩) }
  | _, _ => store

/-- `DELETE FROM job_runs WHERE log_id IN (..)`, refused while a request names one of the runs. -/
def deleteRuns (store : Store) (ids : List Nat) : Option Store :=
  if store.requests.any fun requests => requests.rows.any (namesRun ids) then none
  else some { store with runs := store.runs.delete fun row => row.logId ∈ ids }

/-- The transaction of one batch. -/
def moveBatch (store : Store) (ids : List Nat) (archivedAt : String) : Option Store :=
  (copyRuns store ids archivedAt).bind fun copied => deleteRuns (archiveRequestsForRuns copied ids archivedAt) ids

/-- What the database under the store takes: the values one statement may bind, and whether a negative `LIMIT` is
refused. -/
structure Backend where
  maxVariables : Nat
  refusesNegativeLimit : Bool

/-- SQLite as it is built by default. -/
def sqlite : Backend := ⟨32766, false⟩

/-- The pick binds two values, and the copy one for each id and the stamp. -/
def Backend.takes (backend : Backend) (batchSize : Int) (ids : List Nat) : Bool :=
  !(batchSize < 0 && backend.refusesNegativeLimit) && max 2 (ids.length + 1) ≤ backend.maxVariables

/-- One batch: the store it leaves and how many runs it moved. -/
def archiveBatch (backend : Backend) (cutoff : String) (batchSize : Int) (archivedAt : String) (store : Store) :
    Option (Store × Nat) :=
  let ids := pickIds store.runs cutoff batchSize
  if !backend.takes batchSize ids then none
  else if ids = [] then some (store, 0)
  else (moveBatch store ids archivedAt).map fun next => (next, ids.length)

/-! ## The sweep -/

/-- How a sweep ends: nothing old was left to pick, its batches ran out, or a statement raised. -/
inductive Ended
  | drained
  | stopped
  | raised
  deriving DecidableEq

structure Sweep where
  store : Store
  moved : Nat
  ended : Ended

/-- At most so many batches; `clock` stamps each of them. -/
def archiveBatches (backend : Backend) (cutoff : String) (batchSize : Int) (clock : Nat → String) :
    Nat → Store → Nat → Sweep
  | 0, store, moved => ⟨store, moved, .stopped⟩
  | batches + 1, store, moved =>
      match archiveBatch backend cutoff batchSize (clock moved) store with
      | none => ⟨store, moved, .raised⟩
      | some (next, count) =>
          if count = 0 ∨ (count : Int) < batchSize then ⟨next, moved + count, .drained⟩
          else archiveBatches backend cutoff batchSize clock batches next (moved + count)

def ensureRequestHistoryTable (store : Store) : Store :=
  if store.requests.isSome ∧ store.requestHistory.isNone then { store with requestHistory := some [] } else store

/-- One call: the database it is made on, when, its arguments, the clock of its batches, and the batch after whose
commit it is interrupted, if it is. -/
structure ArchiveCall where
  backend : Backend
  now : Moment
  retentionDays : Int
  batchSize : Int
  maxBatches : Option Int
  clock : Nat → String
  interruptedAfter : Option Nat

def ArchiveCall.cutoff (call : ArchiveCall) : Option String :=
  (call.now.shift (-(call.retentionDays * 86400))).map isoText

/-- Without a cap a sweep has more batches than there are runs. -/
def ArchiveCall.batches (call : ArchiveCall) (store : Store) : Nat :=
  let allowed :=
    match call.maxBatches with
    | none => store.runs.rows.length + 1
    | some cap => cap.toNat
  match call.interruptedAfter with
  | none => allowed
  | some committed => min allowed committed

def archiveOldJobRuns (call : ArchiveCall) (store : Store) : Sweep :=
  if call.retentionDays ≤ 0 then ⟨store, 0, .drained⟩
  else
    let ready := ensureRequestHistoryTable store
    match call.cutoff with
    | none => ⟨ready, 0, .raised⟩
    | some cutoff => archiveBatches call.backend cutoff call.batchSize call.clock (call.batches ready) ready 0

/-! ## Which rows a batch picks -/

section Picks

variable {runs : JobRunTable} {cutoff : String} {batchSize : Int}

theorem mem_oldIds {logId : Nat} :
    logId ∈ oldIds runs cutoff ↔ ∃ row ∈ runs.rows, row.logId = logId ∧ row.createdAt < cutoff := by
  simp only [oldIds, List.mem_mergeSort, List.mem_map, List.mem_filter, decide_eq_true_eq]
  constructor
  · rintro ⟨row, ⟨member, old⟩, same⟩
    exact ⟨row, member, same, old⟩
  · rintro ⟨row, member, same, old⟩
    exact ⟨row, ⟨member, old⟩, same⟩

theorem oldIds_nodup : (oldIds runs cutoff).Nodup :=
  (List.mergeSort_perm _ _).nodup_iff.mpr (runs.keys_nodup.sublist (List.filter_sublist.map JobRunRow.logId))

theorem oldIds_eq_nil_iff : oldIds runs cutoff = [] ↔ ∀ row ∈ runs.rows, ¬ row.createdAt < cutoff := by
  rw [List.eq_nil_iff_forall_not_mem]
  constructor
  · intro none_old row member old
    exact none_old row.logId (mem_oldIds.mpr ⟨row, member, rfl, old⟩)
  · intro none_old logId picked
    obtain ⟨row, member, _, old⟩ := mem_oldIds.mp picked
    exact none_old row member old

theorem limited_sublist (ids : List Nat) : (limited batchSize ids).Sublist ids := by
  rw [limited]
  split
  · exact List.Sublist.refl ids
  · exact List.take_sublist _ ids

theorem mem_runs_of_mem_pickIds {logId : Nat} (picked : logId ∈ pickIds runs cutoff batchSize) :
    ∃ row ∈ runs.rows, row.logId = logId ∧ row.createdAt < cutoff :=
  mem_oldIds.mp ((limited_sublist _).subset picked)

/-- A batch that picks fewer ids than it may, or none, has picked every old row there was. -/
theorem pickIds_eq_oldIds (bounded : batchSize ≠ 0)
    (few : (pickIds runs cutoff batchSize).length = 0 ∨ ((pickIds runs cutoff batchSize).length : Int) < batchSize) :
    pickIds runs cutoff batchSize = oldIds runs cutoff := by
  rw [pickIds, limited] at few ⊢
  split
  · rfl
  · rename_i positive
    rw [if_neg positive] at few
    apply List.take_of_length_le
    rw [List.length_take] at few
    omega

end Picks

/-! ## What a batch moves -/

/-- The runs of the ids are in the history instead, with the requests that name them. -/
structure Moved (store next : Store) (ids : List Nat) (archivedAt : String) : Prop where
  runs : next.runs = store.runs.delete fun row => row.logId ∈ ids
  history : next.history.rows = store.history.rows ++
    (store.runs.rows.filter fun row => row.logId ∈ ids).map fun row => ⟨archiveColumns row, archivedAt⟩
  requests : next.requests = (archiveRequestsForRuns store ids archivedAt).requests
  requestHistory : next.requestHistory = (archiveRequestsForRuns store ids archivedAt).requestHistory

/-- The archive of the requests is there when the requests are. -/
def Ready (store : Store) : Prop := store.requests.isSome = true → store.requestHistory.isSome = true

@[simp]
theorem ensureRequestHistoryTable_runs (store : Store) : (ensureRequestHistoryTable store).runs = store.runs := by
  rw [ensureRequestHistoryTable]
  split
  · rfl
  · rfl

theorem ready_ensureRequestHistoryTable (store : Store) : Ready (ensureRequestHistoryTable store) := by
  intro used
  rw [ensureRequestHistoryTable] at used ⊢
  split
  · rfl
  · rename_i kept
    rw [if_neg kept] at used
    cases history : store.requestHistory with
    | none => exact absurd ⟨used, by rw [history]; rfl⟩ kept
    | some _ => rfl

section Batch

variable {backend : Backend} {store next : Store} {ids : List Nat} {cutoff archivedAt : String} {batchSize : Int}
  {count : Nat}

theorem archiveRequestsForRuns_runs : (archiveRequestsForRuns store ids archivedAt).runs = store.runs := by
  rw [archiveRequestsForRuns]
  split
  · rfl
  · rfl

/-- The requests do not depend on the run history. -/
theorem archiveRequestsForRuns_withHistory (history : RunHistory) :
    archiveRequestsForRuns { store with history := history } ids archivedAt =
      { archiveRequestsForRuns store ids archivedAt with history := history } := by
  obtain ⟨runs, old, requests, requestHistory⟩ := store
  cases requests with
  | none => rfl
  | some requests =>
    cases requestHistory with
    | none => rfl
    | some moved => rfl

/-- A transaction that is not refused moves the runs of its ids. -/
theorem moved_of_moveBatch (committed : moveBatch store ids archivedAt = some next) :
    Moved store next ids archivedAt := by
  rw [moveBatch, Option.bind_eq_some_iff] at committed
  obtain ⟨copied, copy, deleted⟩ := committed
  rw [copyRuns, Option.map_eq_some_iff] at copy
  obtain ⟨history, accepted, rfl⟩ := copy
  rw [archiveRequestsForRuns_withHistory, deleteRuns, Option.ite_none_left_eq_some] at deleted
  obtain ⟨_, deleted⟩ := deleted
  cases deleted
  refine ⟨?_, Table.rows_of_ofRows? accepted, rfl, rfl⟩
  simp only [archiveRequestsForRuns_runs]

/-- A batch that is not refused moves the rows it picks, if there are any. -/
theorem archiveBatch_eq_some (committed : archiveBatch backend cutoff batchSize archivedAt store = some (next, count)) :
    count = (pickIds store.runs cutoff batchSize).length ∧
      ((pickIds store.runs cutoff batchSize = [] ∧ next = store) ∨
        Moved store next (pickIds store.runs cutoff batchSize) archivedAt) := by
  simp only [archiveBatch] at committed
  split at committed
  · cases committed
  · split at committed
    · rename_i nothing
      cases committed
      exact ⟨by rw [nothing]; rfl, Or.inl ⟨nothing, rfl⟩⟩
    · rw [Option.map_eq_some_iff] at committed
      obtain ⟨left, transaction, same⟩ := committed
      cases same
      exact ⟨rfl, Or.inr (moved_of_moveBatch transaction)⟩

end Batch

/-! ## Nothing is lost or duplicated -/

def liveRequests (store : Store) : List Request :=
  match store.requests with
  | none => []
  | some requests => requests.rows

def pastRequests (store : Store) : List Request := (store.requestHistory.getD []).map ArchivedRequest.request

/-- Every run the store holds, live or in the history. -/
def allRuns (store : Store) : List ArchiveColumns :=
  store.runs.rows.map archiveColumns ++ store.history.rows.map ArchivedRun.columns

/-- Every request the store holds, live or in the history. -/
def allRequests (store : Store) : List Request := liveRequests store ++ pastRequests store

structure Sound (store : Store) : Prop where
  runsOnce : ((allRuns store).map ArchiveColumns.logId).Nodup
  requestsOnce : ((allRequests store).map Request.requestId).Nodup
  namesLive : ∀ row ∈ liveRequests store, ∀ jobRunId, row.jobRunId = some jobRunId →
    ∃ run ∈ store.runs.rows, (run.logId : Int) = jobRunId

theorem namesRun_eq_true_iff {ids : List Nat} {row : Request} :
    namesRun ids row = true ↔ ∃ logId ∈ ids, row.jobRunId = some (logId : Int) := by
  simp only [namesRun, Option.any_eq_true, List.any_eq_true, decide_eq_true_eq]
  constructor
  · rintro ⟨jobRunId, named, logId, member, rfl⟩
    exact ⟨logId, member, named⟩
  · rintro ⟨logId, member, named⟩
    exact ⟨logId, named, logId, member, rfl⟩

/-- What was kept, the past, and what has joined it, in the order they were before. -/
theorem perm_of_moved {α : Type} (kept past moved : List α) :
    (kept ++ (past ++ moved)).Perm (moved ++ kept ++ past) := by
  refine List.perm_append_comm.trans ?_
  rw [List.append_assoc]
  exact List.perm_append_comm

section Conservation

variable {store next : Store} {ids : List Nat} {archivedAt : String}

theorem Moved.live (moved : Moved store next ids archivedAt) (ready : Ready store) :
    liveRequests next = (liveRequests store).filter fun row => !namesRun ids row := by
  rw [liveRequests, moved.requests, archiveRequestsForRuns, liveRequests]
  cases used : store.requests with
  | none => simp [used]
  | some requests =>
    obtain ⟨past, there⟩ := Option.isSome_iff_exists.mp (ready (by rw [used]; rfl))
    simp [there, Table.delete]

theorem Moved.past (moved : Moved store next ids archivedAt) (ready : Ready store) :
    pastRequests next = pastRequests store ++ (liveRequests store).filter (namesRun ids) := by
  rw [pastRequests, moved.requestHistory, archiveRequestsForRuns, pastRequests, liveRequests]
  cases used : store.requests with
  | none => simp
  | some requests =>
    obtain ⟨past, there⟩ := Option.isSome_iff_exists.mp (ready (by rw [used]; rfl))
    simp [there, Function.comp_def]

theorem Moved.ready (moved : Moved store next ids archivedAt) (ready : Ready store) : Ready next := by
  rw [Ready, moved.requests, moved.requestHistory, archiveRequestsForRuns]
  split
  · intro _
    rfl
  · exact ready

theorem Moved.allRuns_perm (moved : Moved store next ids archivedAt) : (allRuns next).Perm (allRuns store) := by
  rw [allRuns, moved.runs, moved.history, allRuns, List.map_append, List.map_map]
  have split := (List.filter_append_perm (fun row : JobRunRow => decide (row.logId ∈ ids)) store.runs.rows).map
    archiveColumns
  rw [List.map_append] at split
  refine List.Perm.trans ?_ (split.append_right _)
  exact perm_of_moved _ _ _

theorem Moved.allRequests_perm (moved : Moved store next ids archivedAt) (ready : Ready store) :
    (allRequests next).Perm (allRequests store) := by
  rw [allRequests, moved.live ready, moved.past ready, allRequests]
  have split := List.filter_append_perm (namesRun ids) (liveRequests store)
  exact (perm_of_moved _ _ _).trans (split.append_right _)

theorem Moved.sound (moved : Moved store next ids archivedAt) (ready : Ready store) (sound : Sound store) :
    Sound next where
  runsOnce := (moved.allRuns_perm.map _).nodup_iff.mpr sound.runsOnce
  requestsOnce := ((moved.allRequests_perm ready).map _).nodup_iff.mpr sound.requestsOnce
  namesLive := by
    intro row live jobRunId named
    rw [moved.live ready, List.mem_filter] at live
    obtain ⟨before, unmoved⟩ := live
    obtain ⟨run, member, rfl⟩ := sound.namesLive row before jobRunId named
    refine ⟨run, ?_, rfl⟩
    rw [moved.runs, Table.mem_delete]
    refine ⟨member, decide_eq_false ?_⟩
    intro gone
    have names : namesRun ids row = true := namesRun_eq_true_iff.mpr ⟨run.logId, gone, named⟩
    simp [names] at unmoved

theorem copyRuns_isSome (sound : Sound store) (ids : List Nat) (archivedAt : String) :
    (copyRuns store ids archivedAt).isSome = true := by
  rw [copyRuns, Option.isSome_map]
  apply Table.ofRows?_isSome
  · have once := sound.runsOnce
    rw [allRuns, List.map_append, List.map_map, List.map_map] at once
    rw [List.map_append, List.map_map, List.nodup_append_comm]
    exact once.sublist ((List.filter_sublist.map _).append_right _)
  · have unindexed : ∀ rows : List ArchivedRun, rows.filterMap noEntry = [] := fun rows =>
      List.filterMap_eq_nil_iff.mpr fun _ _ => rfl
    rw [unindexed]
    exact List.nodup_nil

theorem deleteRuns_isSome (ready : Ready store) (ids : List Nat) (archivedAt : String) :
    (deleteRuns (archiveRequestsForRuns store ids archivedAt) ids).isSome = true := by
  obtain ⟨runs, history, requests, requestHistory⟩ := store
  rw [deleteRuns, if_neg]
  · rfl
  · cases requests with
    | none => simp [archiveRequestsForRuns]
    | some requests =>
      obtain ⟨past, rfl⟩ := Option.isSome_iff_exists.mp (ready rfl)
      simp [archiveRequestsForRuns, Table.delete]

theorem moveBatch_isSome (ready : Ready store) (sound : Sound store) (ids : List Nat) (archivedAt : String) :
    (moveBatch store ids archivedAt).isSome = true := by
  obtain ⟨copied, copy⟩ := Option.isSome_iff_exists.mp (copyRuns_isSome sound ids archivedAt)
  rw [moveBatch, copy, Option.bind_some]
  rw [copyRuns, Option.map_eq_some_iff] at copy
  obtain ⟨history, _, rfl⟩ := copy
  have readyCopied : Ready { store with history := history } := ready
  exact deleteRuns_isSome readyCopied ids archivedAt

/-- A batch of a sound store is refused by the database's limits alone. -/
theorem archiveBatch_isSome {backend : Backend} (ready : Ready store) (sound : Sound store) (cutoff : String)
    (batchSize : Int) (archivedAt : String) : (archiveBatch backend cutoff batchSize archivedAt store).isSome =
      backend.takes batchSize (pickIds store.runs cutoff batchSize) := by
  simp only [archiveBatch]
  cases backend.takes batchSize (pickIds store.runs cutoff batchSize) with
  | false => rfl
  | true =>
    rw [Bool.not_true, if_neg Bool.false_ne_true]
    split
    · rfl
    · rw [Option.isSome_map]
      exact moveBatch_isSome ready sound _ archivedAt

end Conservation

/-! ## Whole sweeps -/

/-- The store holds what the first one held, once each. -/
structure Conserved (start store : Store) : Prop where
  sound : Sound store
  runs : (allRuns store).Perm (allRuns start)
  requests : (allRequests store).Perm (allRequests start)

section Sweeps

variable {backend : Backend} {start store next : Store} {cutoff archivedAt : String} {batchSize : Int}
  {clock : Nat → String} {count moved batches : Nat}

theorem Conserved.batch (conserved : Conserved start store) (ready : Ready store)
    (committed : archiveBatch backend cutoff batchSize archivedAt store = some (next, count)) :
    Conserved start next ∧ Ready next := by
  obtain ⟨_, ⟨_, rfl⟩ | taken⟩ := archiveBatch_eq_some committed
  · exact ⟨conserved, ready⟩
  · refine ⟨⟨taken.sound ready conserved.sound, ?_, ?_⟩, taken.ready ready⟩
    · exact taken.allRuns_perm.trans conserved.runs
    · exact (taken.allRequests_perm ready).trans conserved.requests

theorem Conserved.sweep (conserved : Conserved start store) (ready : Ready store) :
    Conserved start (archiveBatches backend cutoff batchSize clock batches store moved).store := by
  induction batches generalizing store moved with
  | zero => exact conserved
  | succ batches ih =>
    rw [archiveBatches]
    cases committed : archiveBatch backend cutoff batchSize (clock moved) store with
    | none => exact conserved
    | some result =>
      obtain ⟨next, count⟩ := result
      obtain ⟨kept, again⟩ := conserved.batch ready committed
      simp only
      split
      · exact kept
      · exact ih kept again

/-- A sweep that has drained the table has left no old run. -/
theorem no_old_of_drained (conserved : Conserved start store) (ready : Ready store) (bounded : batchSize ≠ 0)
    (drained : (archiveBatches backend cutoff batchSize clock batches store moved).ended = .drained) :
    ∀ row ∈ (archiveBatches backend cutoff batchSize clock batches store moved).store.runs.rows,
      ¬ row.createdAt < cutoff := by
  induction batches generalizing store moved with
  | zero => cases drained
  | succ batches ih =>
    rw [archiveBatches] at drained ⊢
    cases committed : archiveBatch backend cutoff batchSize (clock moved) store with
    | none =>
      rw [committed] at drained
      cases drained
    | some result =>
      obtain ⟨next, count⟩ := result
      obtain ⟨kept, again⟩ := conserved.batch ready committed
      rw [committed] at drained
      simp only at drained ⊢
      split at drained
      · rename_i few
        obtain ⟨rfl, picked⟩ := archiveBatch_eq_some committed
        rw [if_pos few]
        have all := pickIds_eq_oldIds bounded few
        rcases picked with ⟨nothing, rfl⟩ | taken
        · rw [nothing] at all
          exact oldIds_eq_nil_iff.mp all.symm
        · intro row member old
          rw [taken.runs, Table.mem_delete] at member
          have picked : row.logId ∈ pickIds store.runs cutoff batchSize := by
            rw [all]
            exact mem_oldIds.mpr ⟨row, member.1, rfl, old⟩
          simp [picked] at member
      · rename_i more
        rw [if_neg more]
        exact ih kept again drained

/-- No batch picks more than the one before it, so the database takes it if it took that one. -/
theorem takes_of_moved {ids : List Nat} (taken : Moved store next ids archivedAt)
    (takes : backend.takes batchSize (pickIds store.runs cutoff batchSize) = true) :
    backend.takes batchSize (pickIds next.runs cutoff batchSize) = true := by
  have fewer : (oldIds next.runs cutoff).length ≤ (oldIds store.runs cutoff).length := by
    rw [oldIds, oldIds, List.length_mergeSort, List.length_mergeSort, List.length_map, List.length_map, taken.runs]
    exact (List.filter_sublist.filter _).length_le
  have picks : (pickIds next.runs cutoff batchSize).length ≤ (pickIds store.runs cutoff batchSize).length := by
    rw [pickIds, pickIds, limited, limited]
    split
    · exact fewer
    · rw [List.length_take, List.length_take]
      exact min_le_min_left _ fewer
  simp only [Backend.takes, Bool.and_eq_true, decide_eq_true_eq] at takes ⊢
  exact ⟨takes.1, by omega⟩

/-- A sweep with more batches than there are runs drains the table, where the database takes its first one. -/
theorem drained_of_length_lt (conserved : Conserved start store) (ready : Ready store)
    (takes : backend.takes batchSize (pickIds store.runs cutoff batchSize) = true)
    (enough : store.runs.rows.length < batches) :
    (archiveBatches backend cutoff batchSize clock batches store moved).ended = .drained := by
  induction batches generalizing store moved with
  | zero => omega
  | succ batches ih =>
    rw [archiveBatches]
    obtain ⟨⟨next, count⟩, committed⟩ := Option.isSome_iff_exists.mp
      ((archiveBatch_isSome ready conserved.sound cutoff batchSize (clock moved)).trans takes)
    obtain ⟨kept, again⟩ := conserved.batch ready committed
    rw [committed]
    simp only
    split
    · rfl
    · rename_i more
      obtain ⟨rfl, ⟨nothing, _⟩ | taken⟩ := archiveBatch_eq_some committed
      · rw [nothing] at more
        exact absurd (Or.inl rfl) more
      · have some_picked : pickIds store.runs cutoff batchSize ≠ [] := by
          intro nothing
          exact more (Or.inl (by rw [nothing]; rfl))
        obtain ⟨logId, picked⟩ := List.exists_mem_of_ne_nil _ some_picked
        obtain ⟨row, member, rfl, _⟩ := mem_runs_of_mem_pickIds picked
        have fewer : next.runs.rows.length < store.runs.rows.length := by
          rw [taken.runs]
          exact List.length_filter_lt_length_iff_exists.mpr ⟨row, member, by simp [picked]⟩
        exact ih kept again (takes_of_moved taken takes) (by omega)

theorem conserved_ensureRequestHistoryTable (conserved : Conserved start store) :
    Conserved start (ensureRequestHistoryTable store) := by
  rw [ensureRequestHistoryTable]
  split
  · rename_i missing
    have past : pastRequests { store with requestHistory := some [] } = pastRequests store := by
      rw [pastRequests, pastRequests, Option.isNone_iff_eq_none.mp missing.2]
      rfl
    have same : allRequests { store with requestHistory := some [] } = allRequests store := by
      rw [allRequests, past, allRequests]
      rfl
    exact ⟨⟨conserved.sound.runsOnce, same ▸ conserved.sound.requestsOnce, conserved.sound.namesLive⟩,
      conserved.runs, same ▸ conserved.requests⟩
  · exact conserved

/-- One call conserves the store, however it is capped or interrupted. -/
theorem Conserved.call (conserved : Conserved start store) (call : ArchiveCall) :
    Conserved start (archiveOldJobRuns call store).store := by
  have ready := conserved_ensureRequestHistoryTable conserved
  rw [archiveOldJobRuns]
  split
  · exact conserved
  · simp only
    split
    · exact ready
    · exact ready.sweep (ready_ensureRequestHistoryTable store)

theorem Conserved.calls (conserved : Conserved start store) (calls : List ArchiveCall) :
    Conserved start (calls.foldl (fun store call => (archiveOldJobRuns call store).store) store) := by
  induction calls generalizing store with
  | nil => exact conserved
  | cons call rest ih => exact ih (conserved.call call)

end Sweeps

/-! ## In one place -/

/-- What two lists hold without a repeated key is in exactly one of them. -/
theorem xor_mem_of_nodup {α κ : Type} {key : α → κ} {first second : List α} {item : α}
    (once : ((first ++ second).map key).Nodup) (held : item ∈ first ++ second) :
    Xor (item ∈ first) (item ∈ second) := by
  rw [List.map_append, List.nodup_append] at once
  rcases List.mem_append.mp held with live | past
  · refine Or.inl ⟨live, fun both => ?_⟩
    exact once.2.2 _ (List.mem_map_of_mem live) _ (List.mem_map_of_mem both) rfl
  · refine Or.inr ⟨past, fun both => ?_⟩
    exact once.2.2 _ (List.mem_map_of_mem both) _ (List.mem_map_of_mem past) rfl

/-- Each run and each request of the first store is live or archived, not both; nothing else is there, and
no live request names an archived run. -/
structure InOnePlace (start store : Store) : Prop where
  runs : ∀ run ∈ allRuns start, Xor (run ∈ store.runs.rows.map archiveColumns)
    (run ∈ store.history.rows.map ArchivedRun.columns)
  requests : ∀ request ∈ allRequests start, Xor (request ∈ liveRequests store) (request ∈ pastRequests store)
  noOtherRun : (allRuns store).length = (allRuns start).length
  noOtherRequest : (allRequests store).length = (allRequests start).length
  namesNone : ∀ request ∈ liveRequests store, ∀ archived ∈ store.history.rows,
    request.jobRunId ≠ some (archived.logId : Int)

theorem Conserved.inOnePlace {start store : Store} (conserved : Conserved start store) : InOnePlace start store where
  runs := fun _ held => xor_mem_of_nodup conserved.sound.runsOnce (conserved.runs.mem_iff.mpr held)
  requests := fun _ held => xor_mem_of_nodup conserved.sound.requestsOnce (conserved.requests.mem_iff.mpr held)
  noOtherRun := conserved.runs.length_eq
  noOtherRequest := conserved.requests.length_eq
  namesNone := by
    intro request live archived past named
    obtain ⟨run, member, same⟩ := conserved.sound.namesLive request live _ named
    have once := conserved.sound.runsOnce
    rw [allRuns, List.map_append, List.map_map, List.map_map, List.nodup_append] at once
    exact once.2.2 run.logId (List.mem_map.mpr ⟨run, member, rfl⟩) archived.logId
      (List.mem_map.mpr ⟨archived, past, rfl⟩) (Int.ofNat_inj.mp same)

section Months

def januaryRun : JobRunRow where
  logId := 1
  createdAt := "2026-01-05T00:00:00Z"
  startedAt := some "2026-01-05T00:00:00Z"
  finishedAt := some "2026-01-05T00:01:00Z"
  jobCode := "APP-REPORTS"
  level := "logging"
  status := "done"
  message := "done"
  durationMs := some 60000
  errorText := none
  hostName := some "worker"
  claimKey := some "APP-REPORTS"
  metadata := Metadata.empty

/-- The request that asked for it. -/
def januaryRequest : Request where
  requestId := 1
  appCommandId := "APP-REPORTS"
  status := .done
  requestedBy := "ops"
  requestSource := "console"
  requestedAt := "2026-01-05T00:00:00Z"
  claimedAt := some "2026-01-05T00:00:00Z"
  startedAt := some "2026-01-05T00:00:00Z"
  finishedAt := some "2026-01-05T00:01:00Z"
  jobRunId := some 1
  note := ""

def januaryStore : Store where
  runs := ⟨[januaryRun], by decide +kernel, by decide +kernel⟩
  history := Table.empty
  requests := some ⟨[januaryRequest], by decide +kernel, by decide +kernel⟩
  requestHistory := none

theorem sound_januaryStore : Sound januaryStore where
  runsOnce := by decide +kernel
  requestsOnce := by decide +kernel
  namesLive := by
    intro row live jobRunId named
    obtain rfl := List.mem_singleton.mp live
    cases named
    exact ⟨januaryRun, List.mem_singleton_self _, rfl⟩

/-- A sweep of the first of October with the default retention. -/
def octoberCall (batchSize : Int) (maxBatches : Option Int) : ArchiveCall where
  backend := sqlite
  now := 63926409600
  retentionDays := 15
  batchSize := batchSize
  maxBatches := maxBatches
  clock := fun _ => "2026-10-01T00:00:00Z"
  interruptedAfter := none

end Months

end DbaBrain.Db.JobRunsArchive
