import DbaBrain.Foundation.Execution
import DbaBrain.Db.JobRunsArchive

/-!
# Open runs while the archive works

Archive batches select their ids first and move them in a transaction after;
runs are inserted and updated in between.
-/

namespace DbaBrain.Db.OpenRunsArchive

open DbaBrain.Foundation DbaBrain.Foundation.Execution DbaBrain.Foundation.Text DbaBrain.Lib.RunClaim
open DbaBrain.Db.JobRuns DbaBrain.Db.JobRunsArchive

/-- The store, the last id given, and the ids each archive call has selected and not yet moved. -/
structure System where
  store : Store
  lastLogId : Nat
  picked : Nat → List Nat

inductive Label
  | insert (createdAt : String) (claimant : Claimant) (item : JobRun)
  | update (logId : Nat) (closing : Closing) (onlyIfRunning : Bool)
  | pick (self : Nat) (cutoff : String) (batchSize : Int)
  | move (self : Nat) (archivedAt : String)

/-- The id an insert is given: above every id a run has or had. -/
def System.nextLogId (system : System) : Nat :=
  above (system.store.runs.rows.map JobRunRow.logId ++ system.store.history.rows.map ArchivedRun.logId)
    system.lastLogId

def System.withRuns (system : System) (runs : JobRunTable) : System :=
  { system with store := { system.store with runs := runs } }

/-- One call, or one statement group of an archive batch; a refused one changes nothing. -/
def step (system : System) : Label → Option System
  | .insert createdAt claimant item =>
      match insertJobRun system.store.runs system.nextLogId createdAt claimant item with
      | none => some system
      | some runs => some { system.withRuns runs with lastLogId := system.nextLogId }
  | .update logId closing onlyIfRunning =>
      match updateJobRun system.store.runs logId closing onlyIfRunning with
      | none => some system
      | some (runs, _) => some (system.withRuns runs)
  | .pick self cutoff batchSize =>
      some { system with
        picked := Function.update system.picked self (pickIds system.store.runs cutoff batchSize) }
  | .move self archivedAt =>
      match moveBatch system.store (system.picked self) archivedAt with
      | none => some { system with picked := Function.update system.picked self [] }
      | some store => some { system with store := store, picked := Function.update system.picked self [] }

def Updates (label : Label) (logId : Nat) : Prop :=
  ∃ closing onlyIfRunning, label = .update logId closing onlyIfRunning

/-- An open run holds its row: its claim refuses every other, and an update finds and writes it. -/
def HoldsRow (runs : JobRunTable) (logId : Nat) (row : JobRunRow) : Prop :=
  (∀ newId createdAt claimant (item : JobRun), runs.lookup newId = none → asciiLower item.status = "running" →
      item.claimKeyOf = row.claimKey → row.claimKey.isSome = true → item.hostOf claimant = row.hostName.getD "" →
        insertJobRun runs newId createdAt claimant item = none) ∧
    ∀ (closing : Closing) onlyIfRunning, asciiLower closing.status ≠ "running" →
      ∃ next, updateJobRun runs logId closing onlyIfRunning = some (next, true) ∧
        next.lookup logId = some (closing.apply row)

/-- Every open run is there after the step as before it, unless the step updates it, and holds its row. -/
def OpenRunsStay (system : System) (label : Label) (next : System) : Prop :=
  ∀ logId row, system.store.runs.lookup logId = some row → row.isRunning = true → ¬ Updates label logId →
    next.store.runs.lookup logId = some row ∧ HoldsRow next.store.runs logId row

def SparesOpenRuns (system : System) (label : Label) (_ : System) : Prop :=
  match label with
  | .pick _ cutoff batchSize => ∀ row ∈ system.store.runs.rows,
      row.logId ∈ pickIds system.store.runs cutoff batchSize → row.isRunning = false
  | .update logId closing _ => asciiLower closing.status = "running" → ∀ self, logId ∉ system.picked self
  | _ => True

/-! ## A row that is there holds -/

variable {logId : Nat} {system next : System} {label : Label}

theorem holdsRow {runs : JobRunTable} {row : JobRunRow} (found : runs.lookup logId = some row)
    (running : row.isRunning = true) : HoldsRow runs logId row := by
  constructor
  · intro newId createdAt claimant item fresh itemRunning sameKey claims sameHost
    rw [insertJobRun_eq_none_iff fresh]
    obtain ⟨key, named⟩ := Option.isSome_iff_exists.mp claims
    refine ⟨itemRunning, key, sameKey.trans named, keyHeld_iff.mpr ⟨row, Table.mem_of_lookup found, ?_⟩⟩
    rw [claimEntry, if_pos running, named, Option.map_some, sameHost]
  · intro closing onlyIfRunning closes
    obtain ⟨⟨next, written⟩, accepted⟩ : ∃ result, updateJobRun runs logId closing onlyIfRunning = some result :=
      Option.isSome_iff_exists.mp (updateJobRun_isSome closes)
    have wrote : written = true := by
      simp only [updateJobRun, Option.map_eq_some_iff, Prod.mk.injEq] at accepted
      obtain ⟨_, _, _, rfl⟩ := accepted
      refine List.any_eq_true.mpr ⟨row, Table.mem_of_lookup found, ?_⟩
      simp [Table.key_of_lookup found, running]
    refine ⟨next, by rw [accepted, wrote], ?_⟩
    rw [lookup_updateJobRun accepted, found]
    simp [running]

/-! ## What a batch has selected stays closed -/

/-- The selected ids are ids of runs, live or archived, and none of them is open. -/
def PickedClosed (system : System) : Prop :=
  ∀ self, ∀ logId ∈ system.picked self,
    (logId ∈ system.store.runs.rows.map JobRunRow.logId ++ system.store.history.rows.map ArchivedRun.logId) ∧
      ∀ row, system.store.runs.lookup logId = some row → row.isRunning = false

theorem rows_logId_updateJobRun {runs next : JobRunTable} {closing : Closing} {onlyIfRunning written : Bool}
    (accepted : updateJobRun runs logId closing onlyIfRunning = some (next, written)) :
    next.rows.map JobRunRow.logId = runs.rows.map JobRunRow.logId := by
  rw [rows_updateJobRun accepted, List.map_map]
  apply List.map_congr_left
  intro row _
  simp only [Function.comp]
  split
  · rfl
  · rfl

theorem known_of_moved {store next : Store} {ids : List Nat} {archivedAt : String}
    (moved : Moved store next ids archivedAt)
    (known : logId ∈ store.runs.rows.map JobRunRow.logId ++ store.history.rows.map ArchivedRun.logId) :
    logId ∈ next.runs.rows.map JobRunRow.logId ++ next.history.rows.map ArchivedRun.logId := by
  have same := (moved.allRuns_perm.map ArchiveColumns.logId).mem_iff (a := logId)
  simp only [allRuns, List.map_append, List.map_map] at same
  exact same.mpr known

theorem nextLogId_fresh
    (known : logId ∈ system.store.runs.rows.map JobRunRow.logId ++ system.store.history.rows.map ArchivedRun.logId) :
    logId ≠ system.nextLogId :=
  (lt_above _ known).ne

/-- What one step can do to the runs and to what is selected. -/
theorem step_cases (stepped : step system label = some next) :
    (∃ createdAt claimant item, label = .insert createdAt claimant item ∧ next.picked = system.picked ∧
      next.store.history = system.store.history ∧
      (next.store.runs = system.store.runs ∨
        insertJobRun system.store.runs system.nextLogId createdAt claimant item = some next.store.runs)) ∨
    (∃ logId closing onlyIfRunning, label = .update logId closing onlyIfRunning ∧ next.picked = system.picked ∧
      next.store.history = system.store.history ∧
      (next.store.runs = system.store.runs ∨
        ∃ written, updateJobRun system.store.runs logId closing onlyIfRunning = some (next.store.runs, written))) ∨
    (∃ self cutoff batchSize, label = .pick self cutoff batchSize ∧ next.store = system.store ∧
      next.picked = Function.update system.picked self (pickIds system.store.runs cutoff batchSize)) ∨
    ∃ self archivedAt, label = .move self archivedAt ∧ next.picked = Function.update system.picked self [] ∧
      (next.store = system.store ∨ Moved system.store next.store (system.picked self) archivedAt) := by
  fun_cases step system label with
  | case1 createdAt claimant item refused =>
    rw [step, refused] at stepped
    cases stepped
    exact Or.inl ⟨createdAt, claimant, item, rfl, rfl, rfl, Or.inl rfl⟩
  | case2 createdAt claimant item runs inserted =>
    rw [step, inserted] at stepped
    cases stepped
    exact Or.inl ⟨createdAt, claimant, item, rfl, rfl, rfl, Or.inr inserted⟩
  | case3 logId closing onlyIfRunning refused =>
    rw [step, refused] at stepped
    cases stepped
    exact Or.inr (Or.inl ⟨logId, closing, onlyIfRunning, rfl, rfl, rfl, Or.inl rfl⟩)
  | case4 logId closing onlyIfRunning runs written updated =>
    rw [step, updated] at stepped
    cases stepped
    exact Or.inr (Or.inl ⟨logId, closing, onlyIfRunning, rfl, rfl, rfl, Or.inr ⟨written, updated⟩⟩)
  | case5 self cutoff batchSize =>
    cases stepped
    exact Or.inr (Or.inr (Or.inl ⟨self, cutoff, batchSize, rfl, rfl, rfl⟩))
  | case6 self archivedAt refused =>
    rw [step, refused] at stepped
    cases stepped
    exact Or.inr (Or.inr (Or.inr ⟨self, archivedAt, rfl, rfl, Or.inl rfl⟩))
  | case7 self archivedAt store committed =>
    rw [step, committed] at stepped
    cases stepped
    exact Or.inr (Or.inr (Or.inr ⟨self, archivedAt, rfl, rfl, Or.inr (moved_of_moveBatch committed)⟩))

theorem pickedClosed_step (stepped : step system label = some next) (spares : SparesOpenRuns system label next)
    (closed : PickedClosed system) : PickedClosed next := by
  rcases step_cases stepped with ⟨createdAt, claimant, item, rfl, samePicked, sameHistory, refused | inserted⟩ |
    ⟨updatedId, closing, onlyIfRunning, rfl, samePicked, sameHistory, refused | ⟨written, updated⟩⟩ |
    ⟨worker, cutoff, batchSize, rfl, sameStore, picks⟩ | ⟨worker, archivedAt, rfl, cleared, refused | moved⟩
  · rw [PickedClosed, samePicked, sameHistory, refused]
    exact closed
  · rw [PickedClosed, samePicked, sameHistory]
    intro self logId picked
    obtain ⟨known, notOpen⟩ := closed self logId picked
    have rows := Table.rows_of_insert? inserted
    constructor
    · rw [rows, List.map_append]
      rcases List.mem_append.mp known with live | past
      · exact List.mem_append_left _ (List.mem_append_left _ live)
      · exact List.mem_append_right _ past
    · intro row found
      have apart : (item.row system.nextLogId createdAt claimant).logId ≠ logId := (nextLogId_fresh known).symm
      rw [Table.lookup_insert? inserted, if_neg apart] at found
      exact notOpen row found
  · rw [PickedClosed, samePicked, sameHistory, refused]
    exact closed
  · rw [PickedClosed, samePicked, sameHistory, rows_logId_updateJobRun updated]
    intro self logId picked
    obtain ⟨known, notOpen⟩ := closed self logId picked
    refine ⟨known, ?_⟩
    intro row found
    rw [lookup_updateJobRun updated, Option.map_eq_some_iff] at found
    obtain ⟨before, present, rfl⟩ := found
    split
    · rename_i own
      have shuts : asciiLower closing.status ≠ "running" := by
        intro opens
        exact spares opens self (own.1 ▸ picked)
      exact decide_eq_false shuts
    · exact notOpen before present
  · rw [PickedClosed, sameStore, picks]
    intro self logId picked
    rcases eq_or_ne self worker with rfl | different
    · rw [Function.update_self] at picked
      obtain ⟨row, member, rfl, _⟩ := mem_runs_of_mem_pickIds picked
      refine ⟨List.mem_append_left _ (List.mem_map_of_mem member), ?_⟩
      intro other found
      rw [Table.lookup_of_mem member] at found
      cases found
      exact spares row member picked
    · rw [Function.update_of_ne different] at picked
      exact closed self logId picked
  · rw [PickedClosed, refused, cleared]
    intro self logId picked
    rcases eq_or_ne self worker with rfl | different
    · simp at picked
    · rw [Function.update_of_ne different] at picked
      exact closed self logId picked
  · rw [PickedClosed, cleared]
    intro self logId picked
    rcases eq_or_ne self worker with rfl | different
    · simp at picked
    · rw [Function.update_of_ne different] at picked
      obtain ⟨known, notOpen⟩ := closed self logId picked
      refine ⟨known_of_moved moved known, ?_⟩
      intro row found
      rw [moved.runs, Table.lookup_delete, Option.filter_eq_some_iff] at found
      exact notOpen row found.1

/-- A step leaves every open run it does not update, when nothing selected is open. -/
theorem openRunsStay_step (stepped : step system label = some next) (closed : PickedClosed system) :
    OpenRunsStay system label next := by
  intro logId row found running notUpdated
  have stays : next.store.runs.lookup logId = some row := by
    rcases step_cases stepped with ⟨createdAt, claimant, item, rfl, _, _, refused | inserted⟩ |
      ⟨updatedId, closing, onlyIfRunning, rfl, _, _, refused | ⟨written, updated⟩⟩ |
      ⟨worker, cutoff, batchSize, rfl, sameStore, _⟩ | ⟨worker, archivedAt, rfl, _, refused | moved⟩
    · rw [refused]
      exact found
    · exact Table.lookup_insert?_of_found inserted found
    · rw [refused]
      exact found
    · rw [lookup_updateJobRun_of_ne updated]
      · exact found
      · rintro rfl
        exact notUpdated ⟨closing, onlyIfRunning, rfl⟩
    · rw [sameStore]
      exact found
    · rw [refused]
      exact found
    · rw [moved.runs, Table.lookup_delete, found, Option.filter_eq_some_iff]
      refine ⟨rfl, ?_⟩
      have unpicked : row.logId ∉ system.picked worker := by
        intro picked
        have notOpen := (closed worker row.logId picked).2 row (Table.key_of_lookup found ▸ found)
        rw [running] at notOpen
        cases notOpen
      simp [unpicked]
  exact ⟨stays, holdsRow stays running⟩

/-- While no batch selects an open run and none it has selected is opened again, the archive leaves
every open run its row, and with it its claim and its closing update. -/
theorem open_runs_stay (store : Store) (lastLogId : Nat) (labels : List Label)
    (spares : Every step SparesOpenRuns ⟨store, lastLogId, fun _ => []⟩ labels) :
    Every step OpenRunsStay ⟨store, lastLogId, fun _ => []⟩ labels := by
  refine Every.mono (fun system label next stepped spares => pickedClosed_step stepped spares) ?_ ?_ spares
  · intro system label next stepped closed _
    exact openRunsStay_step stepped closed
  · intro self logId picked
    simp at picked

section Service

/-- One batch of a sweep of the first of October. -/
def octoberBatch : List Label := [.pick 0 "2026-09-16T00:00:00Z" 20000, .move 0 "2026-10-01T00:00:00Z"]

theorem open_runs_stay_january :
    Every step OpenRunsStay ⟨januaryStore, 1, fun _ => []⟩ octoberBatch := by
  apply open_runs_stay januaryStore 1 octoberBatch
  intro picked stepped
  refine ⟨?_, fun moved stepped => ⟨trivial, trivial⟩⟩
  intro row member _
  rw [List.mem_singleton.mp member]
  decide +kernel

/-- A service that has run since January: no timeout, and still at work. -/
def serviceRun : JobRunRow :=
  { januaryRun with
    finishedAt := none
    jobCode := "APP-WEBHOST"
    status := "running"
    durationMs := none
    claimKey := some "APP-WEBHOST" }

def serviceStore : Store :=
  { januaryStore with
    runs := ⟨[serviceRun], by decide +kernel, by decide +kernel⟩
    requests := none }

theorem service_moved :
    (exec step ⟨serviceStore, 1, fun _ => []⟩ octoberBatch).map (fun system => system.store.runs.rows) = some [] := by
  decide +kernel

/-- A batch takes the row of a service that still runs. -/
theorem archive_takes_open_run :
    ¬ ∀ (store : Store) (lastLogId : Nat) (labels : List Label),
      Every step OpenRunsStay ⟨store, lastLogId, fun _ => []⟩ labels := by
  intro stays
  obtain ⟨final, ran, emptied⟩ := Option.map_eq_some_iff.mp service_moved
  obtain ⟨picked, first, rest⟩ := exec_cons_eq_some.mp ran
  obtain ⟨moved, second, done⟩ := exec_cons_eq_some.mp rest
  cases done
  have kept := (stays serviceStore 1 octoberBatch picked first).2 final second
  cases first
  have left := (kept.1 1 serviceRun (by decide +kernel) (by decide +kernel) (by rintro ⟨_, _, ⟨⟩⟩)).1
  have present := Table.mem_of_lookup left
  rw [emptied] at present
  cases present

end Service

end DbaBrain.Db.OpenRunsArchive
