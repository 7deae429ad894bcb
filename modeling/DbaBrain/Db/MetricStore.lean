import Mathlib
import DbaBrain.Foundation.Calendar
import DbaBrain.Foundation.Text

/-!
# The metric store

A collection's results are inserted as rows; rows older than a retention are
moved to the archive.  What is due is read from the live rows alone.
-/

namespace DbaBrain.Db.MetricStore

open DbaBrain.Foundation.Calendar DbaBrain.Foundation.Text

/-- One collected metric row, as the metrics app hands it over. -/
structure MetricResult where
  targetId : String
  serverId : String
  ip : String
  dbType : String
  dbName : String
  metricCode : String
  metricItem : Option String
  metricValue : Option String
  metricUnit : Option String
  status : String
  importance : Int
  message : Option String
  collectedAt : String
  rawStdout : Option String
  rawStderr : Option String
  exitCode : Option Int
  executionTime : Option ℚ
  collectorType : Option String
  category : Option String
  errorType : Option String
  normalizedErrorSignature : Option String

/-- A result of the last day of September. -/
def sampleResult : MetricResult where
  targetId := "SALES"
  serverId := "192.0.2.10"
  ip := "192.0.2.10"
  dbType := "sqlserver"
  dbName := ""
  metricCode := "INSTANCE_STATUS"
  metricItem := none
  metricValue := some "1"
  metricUnit := none
  status := "OK"
  importance := 5
  message := none
  collectedAt := "2026-09-30T23:59:58Z"
  rawStdout := none
  rawStderr := none
  exitCode := none
  executionTime := none
  collectorType := some "sql"
  category := some "availability"
  errorType := none
  normalizedErrorSignature := none

/-- A row of `metric_results`: the result as it is stored, and what the store adds. -/
structure MetricRow extends MetricResult where
  resultId : Nat
  runId : Int
  dailyReportCreated : Bool

/-- A row of `metric_results_archive`: every column of the row, and when it was archived. -/
abbrev ArchivedRow := MetricRow × String

/-- The two tables; `result_id` is a key of each, and no row is in both. -/
structure Store where
  live : List MetricRow
  archive : List ArchivedRow
  lastId : Nat
  once : ((live ++ archive.map Prod.fst).map MetricRow.resultId).Nodup
  bounded : ∀ row ∈ live ++ archive.map Prod.fst, row.resultId ≤ lastId

/-- The two tables as they are created. -/
def Store.empty : Store := ⟨[], [], 0, List.nodup_nil, fun _ member => absurd member List.not_mem_nil⟩

/-! ## Inserting -/

def withoutNul (text : String) : String := String.ofList (text.toList.filter fun c => c ≠ Char.ofNat 0)

def sqliteText (value : Option String) : Option String := value.map withoutNul

/-- The row `insert_results` makes of a result: the texts a collection can influence lose their NULs. -/
def insertedRow (runId : Int) (resultId : Nat) (item : MetricResult) : MetricRow where
  toMetricResult :=
    { item with
      metricItem := sqliteText item.metricItem
      metricValue := sqliteText item.metricValue
      message := sqliteText item.message
      rawStdout := sqliteText item.rawStdout
      rawStderr := sqliteText item.rawStderr
      collectorType := sqliteText item.collectorType
      category := sqliteText item.category
      errorType := sqliteText item.errorType
      normalizedErrorSignature := sqliteText item.normalizedErrorSignature }
  resultId := resultId
  runId := runId
  dailyReportCreated := false

def insertedRows (runId : Int) (last : Nat) (results : List MetricResult) : List MetricRow :=
  results.mapIdx fun index item => insertedRow runId (last + 1 + index) item

theorem insertedRows_ids (runId : Int) (last : Nat) (results : List MetricResult) :
    (insertedRows runId last results).map MetricRow.resultId = List.range' (last + 1) results.length := by
  unfold insertedRows
  refine List.ext_getElem (by simp) ?_
  intro index here there
  simp [insertedRow]

def insertResults (runId : Int) (results : List MetricResult) (store : Store) : Store where
  live := store.live ++ insertedRows runId store.lastId results
  archive := store.archive
  lastId := store.lastId + results.length
  once := by
    have order : ((store.live ++ insertedRows runId store.lastId results) ++ store.archive.map Prod.fst).Perm
        ((store.live ++ store.archive.map Prod.fst) ++ insertedRows runId store.lastId results) := by
      rw [List.append_assoc, List.append_assoc]
      exact List.Perm.append_left store.live List.perm_append_comm
    refine ((order.map MetricRow.resultId).nodup_iff).mpr ?_
    rw [List.map_append, insertedRows_ids]
    refine List.Nodup.append store.once List.nodup_range' ?_
    intro id here there
    obtain ⟨row, member, rfl⟩ := List.mem_map.mp here
    have old := store.bounded row member
    rw [List.mem_range'_1] at there
    omega
  bounded := by
    intro row member
    rcases List.mem_append.mp member with inLive | inArchive
    · rcases List.mem_append.mp inLive with old | new
      · exact (store.bounded row (List.mem_append_left _ old)).trans (Nat.le_add_right _ _)
      · have among := List.mem_map_of_mem (f := MetricRow.resultId) new
        rw [insertedRows_ids, List.mem_range'_1] at among
        omega
    · exact (store.bounded row (List.mem_append_right _ inArchive)).trans (Nat.le_add_right _ _)

/-! ## Archiving -/

def cutoffText (days : Int) (now : Moment) : Option String := (now.shift (-(days * 86400))).map isoText

/-- One call of `archive_old_results`: its clock, its retention and its stamp. -/
structure ArchiveCall where
  now : Moment
  retentionDays : Int
  archivedAt : String

def ArchiveCall.cutoff (call : ArchiveCall) : Option String := cutoffText (max call.retentionDays 0) call.now

/-- `collected_at < ?`. -/
def isOld (cutoff : String) (row : MetricRow) : Bool := row.collectedAt < cutoff

/-- What stays and what is moved are together what was there. -/
theorem moved_perm (cutoff archivedAt : String) (live : List MetricRow) (archive : List ArchivedRow) :
    ((live.filter fun row => !isOld cutoff row) ++
        (archive ++ (live.filter (isOld cutoff)).map fun row => (row, archivedAt)).map Prod.fst).Perm
      (live ++ archive.map Prod.fst) := by
  have copies : ((live.filter (isOld cutoff)).map fun row => (row, archivedAt)).map Prod.fst = live.filter (isOld cutoff) := by
    rw [List.map_map]
    exact List.map_id _
  have whole : ((live.filter fun row => !isOld cutoff row) ++ live.filter (isOld cutoff)).Perm live :=
    List.perm_append_comm.trans (List.filter_append_perm (isOld cutoff) live)
  rw [List.map_append, copies]
  calc (live.filter fun row => !isOld cutoff row) ++ (archive.map Prod.fst ++ live.filter (isOld cutoff))
      _ |>.Perm ((live.filter fun row => !isOld cutoff row) ++ (live.filter (isOld cutoff) ++ archive.map Prod.fst)) :=
        List.Perm.append_left _ List.perm_append_comm
      _ |>.Perm (live ++ archive.map Prod.fst) := by
        rw [← List.append_assoc]
        exact whole.append_right _

/-- `archive_old_results` with nothing beside it: the store it leaves. -/
def archiveOldResults (call : ArchiveCall) (store : Store) : Store :=
  match call.cutoff with
  | none => store
  | some cutoff =>
      { live := store.live.filter fun row => !isOld cutoff row
        archive := store.archive ++ (store.live.filter (isOld cutoff)).map fun row => (row, call.archivedAt)
        lastId := store.lastId
        once := (((moved_perm cutoff call.archivedAt store.live store.archive).map MetricRow.resultId).nodup_iff).mpr
          store.once
        bounded := fun row member =>
          store.bounded row ((moved_perm cutoff call.archivedAt store.live store.archive).mem_iff.mp member) }

def ArchiveCall.moves (call : ArchiveCall) (row : MetricRow) : Bool := call.cutoff.any fun cutoff => isOld cutoff row

theorem live_archiveOldResults (call : ArchiveCall) (store : Store) :
    (archiveOldResults call store).live = store.live.filter fun row => !call.moves row := by
  unfold archiveOldResults ArchiveCall.moves
  cases call.cutoff with
  | none => simp
  | some cutoff => rfl

theorem mem_tables_archiveOldResults (call : ArchiveCall) (store : Store) {row : MetricRow} :
    row ∈ (archiveOldResults call store).live ++ (archiveOldResults call store).archive.map Prod.fst ↔
      row ∈ store.live ++ store.archive.map Prod.fst := by
  unfold archiveOldResults
  cases call.cutoff with
  | none => exact Iff.rfl
  | some cutoff => exact (moved_perm cutoff call.archivedAt store.live store.archive).mem_iff

/-- One call after another. -/
def archiveAll (calls : List ArchiveCall) (store : Store) : Store :=
  calls.foldl (fun held call => archiveOldResults call held) store

theorem live_archiveAll (calls : List ArchiveCall) (store : Store) :
    (archiveAll calls store).live = store.live.filter fun row => calls.all fun call => !call.moves row := by
  induction calls generalizing store with
  | nil => simp [archiveAll]
  | cons call rest ih =>
    have later := ih (archiveOldResults call store)
    rw [live_archiveOldResults, List.filter_filter] at later
    refine later.trans (List.filter_congr fun row _ => ?_)
    rw [List.all_cons, Bool.and_comm]

/-! ## Reading the newest rows -/

/-- `ORDER BY collected_at DESC, result_id DESC LIMIT 1`. -/
def newest (rows : List MetricRow) : Option MetricRow :=
  rows.argmax fun row => toLex (row.collectedAt, row.resultId)

def isOf (targetId metricCode : String) (row : MetricRow) : Bool :=
  row.targetId = targetId && row.metricCode = metricCode

def asciiUpper (text : String) : String := String.ofList (text.toList.map Char.toUpper)

/-- What the store takes for a failed collection. -/
def readsAsFailure (row : MetricRow) : Bool :=
  asciiUpper row.status = "ERROR" ||
    (asciiUpper row.status = "WARNING" &&
      "sql execution failed:".toList.isPrefixOf (asciiLower (row.message.getD "")).toList)

def latestResultTime (store : Store) (targetId metricCode : String) : Option String :=
  (newest (store.live.filter (isOf targetId metricCode))).map fun row => row.collectedAt

def latestSuccessfulResultTime (store : Store) (targetId metricCode : String) : Option String :=
  (newest (store.live.filter fun row => isOf targetId metricCode row && !readsAsFailure row)).map fun row => row.collectedAt

end DbaBrain.Db.MetricStore
