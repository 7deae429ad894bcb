import DbaBrain.Db.JobRunsArchive
import DbaBrain.Jobs.Daemon

/-!
# What is due after an archive call

The due rule reads the newest live run of a command, and the archive moves runs
by their age.
-/

namespace DbaBrain.Jobs.DueAfterArchive

open DbaBrain.Foundation DbaBrain.Lib.Coerce DbaBrain.Lib.DueRule
open DbaBrain.Db.JobRuns DbaBrain.Db.JobRunsArchive DbaBrain.Jobs.Daemon

/-! ## What a sweep moves -/

/-- The ids that so many batches pick, of the old ones in order. -/
def sweptIds (batchSize : Int) (batches : Nat) (old : List Nat) : List Nat :=
  if batches = 0 then []
  else if batchSize < 0 then old
  else old.take (batches * batchSize.toNat)

def movedIds (call : ArchiveCall) (store : Store) : List Nat :=
  if call.retentionDays ≤ 0 then []
  else
    match call.cutoff with
    | none => []
    | some cutoff =>
        if call.backend.takes call.batchSize (pickIds store.runs cutoff call.batchSize) then
          sweptIds call.batchSize (call.batches store) (oldIds store.runs cutoff)
        else []

theorem mem_drop_iff_of_nodup {α : Type} {items : List α} (once : items.Nodup) {count : Nat} {item : α} :
    item ∈ items.drop count ↔ item ∈ items ∧ item ∉ items.take count := by
  have split : items.take count ++ items.drop count = items := List.take_append_drop count items
  constructor
  · intro later
    refine ⟨List.mem_of_mem_drop later, fun earlier => ?_⟩
    exact List.disjoint_take_drop once (Nat.le_refl count) earlier later
  · rintro ⟨member, notTaken⟩
    rw [← split, List.mem_append] at member
    exact member.resolve_left notTaken

section Sweeps

variable {backend : Backend} {start store next : Store} {cutoff archivedAt : String} {batchSize : Int}
  {clock : Nat → String} {moved batches count : Nat}

theorem oldIds_sorted (runs : JobRunTable) (cutoff : String) :
    (oldIds runs cutoff).Pairwise fun first second => first ≤ second := by
  have sorted : (oldIds runs cutoff).Pairwise fun first second => decide (first ≤ second) = true :=
    List.pairwise_mergeSort (by simp only [decide_eq_true_eq]; omega)
      (by simp only [Bool.or_eq_true, decide_eq_true_eq]; omega) _
  exact sorted.imp fun le => of_decide_eq_true le

theorem oldIds_of_moved (taken : Moved store next ((oldIds store.runs cutoff).take count) archivedAt) :
    oldIds next.runs cutoff = (oldIds store.runs cutoff).drop count := by
  have same : ∀ logId, logId ∈ oldIds next.runs cutoff ↔ logId ∈ (oldIds store.runs cutoff).drop count := by
    intro logId
    rw [mem_drop_iff_of_nodup oldIds_nodup, mem_oldIds, mem_oldIds, taken.runs]
    constructor
    · rintro ⟨row, member, rfl, old⟩
      rw [Table.mem_delete] at member
      exact ⟨⟨row, member.1, rfl, old⟩, of_decide_eq_false member.2⟩
    · rintro ⟨⟨row, member, rfl, old⟩, kept⟩
      exact ⟨row, Table.mem_delete.mpr ⟨member, decide_eq_false kept⟩, rfl, old⟩
  have perm : (oldIds next.runs cutoff).Perm ((oldIds store.runs cutoff).drop count) :=
    (List.perm_ext_iff_of_nodup oldIds_nodup (oldIds_nodup.sublist (List.drop_sublist _ _))).mpr same
  exact perm.eq_of_pairwise (fun _ _ _ _ first second => Nat.le_antisymm first second) (oldIds_sorted _ _)
    ((oldIds_sorted _ _).sublist (List.drop_sublist _ _))

theorem limited_eq_take (ids : List Nat) : limited batchSize ids = ids.take (limited batchSize ids).length :=
  List.prefix_iff_eq_take.mp (by
    rw [limited]
    split
    · exact List.prefix_refl ids
    · exact List.take_prefix _ ids)

@[simp]
theorem sweptIds_nil (batchSize : Int) (batches : Nat) : sweptIds batchSize batches [] = [] := by
  simp [sweptIds]

/-- One batch more picks first what a batch picks. -/
theorem sweptIds_succ (old : List Nat) :
    sweptIds batchSize (batches + 1) old =
      limited batchSize old ++ sweptIds batchSize batches (old.drop (limited batchSize old).length) := by
  rcases lt_or_ge batchSize 0 with unlimited | bounded
  · simp [sweptIds, limited, unlimited]
  · have rest : old.drop (old.take batchSize.toNat).length = old.drop batchSize.toNat := by
      rcases Nat.le_total old.length batchSize.toNat with short | long
      · rw [List.take_of_length_le short, List.drop_of_length_le short, List.drop_of_length_le (Nat.le_refl _)]
      · rw [List.length_take_of_le long]
    have split : (batches + 1) * batchSize.toNat = batchSize.toNat + batches * batchSize.toNat := by ring
    rw [sweptIds, if_neg (Nat.succ_ne_zero batches), if_neg (not_lt.mpr bounded), limited, if_neg (not_lt.mpr bounded),
      rest, split, List.take_add, sweptIds, if_neg (not_lt.mpr bounded)]
    congr 1
    split
    · rename_i none_left
      rw [none_left, Nat.zero_mul, List.take_zero]
    · rfl

/-- A batch that picks none, or fewer than it may, leaves nothing to pick. -/
theorem sweptIds_drop_of_few {old : List Nat}
    (few : (limited batchSize old).length = 0 ∨ ((limited batchSize old).length : Int) < batchSize) :
    sweptIds batchSize batches (old.drop (limited batchSize old).length) = [] := by
  rw [limited] at few ⊢
  split
  · simp
  · rename_i bounded
    rw [if_neg bounded, List.length_take] at few
    rw [List.length_take]
    rcases Nat.eq_zero_or_pos batchSize.toNat with zero | positive
    · simp [sweptIds, zero, bounded]
    · have all : old.length ≤ min batchSize.toNat old.length := by omega
      rw [List.drop_of_length_le all, sweptIds_nil]

theorem rows_archiveBatches (conserved : Conserved start store) (ready : Ready store)
    (takes : backend.takes batchSize (pickIds store.runs cutoff batchSize) = true) :
    (archiveBatches backend cutoff batchSize clock batches store moved).store.runs.rows =
      store.runs.rows.filter fun row => row.logId ∉ sweptIds batchSize batches (oldIds store.runs cutoff) := by
  induction batches generalizing store moved with
  | zero => simp [archiveBatches, sweptIds]
  | succ batches ih =>
    obtain ⟨⟨next, count⟩, committed⟩ := Option.isSome_iff_exists.mp
      ((archiveBatch_isSome ready conserved.sound cutoff batchSize (clock moved)).trans takes)
    obtain ⟨kept, again⟩ := conserved.batch ready committed
    obtain ⟨counted, picked⟩ := archiveBatch_eq_some committed
    rw [pickIds] at counted picked
    have rows : next.runs.rows = store.runs.rows.filter fun row =>
        row.logId ∉ limited batchSize (oldIds store.runs cutoff) := by
      rcases picked with ⟨nothing, rfl⟩ | taken
      · simp [nothing]
      · rw [taken.runs, Table.delete]
        simp
    rw [archiveBatches, committed, sweptIds_succ]
    simp only
    split
    · rename_i few
      rw [counted] at few
      rw [rows, sweptIds_drop_of_few few, List.append_nil]
    · have rest : oldIds next.runs cutoff =
          (oldIds store.runs cutoff).drop (limited batchSize (oldIds store.runs cutoff)).length := by
        rcases picked with ⟨nothing, rfl⟩ | taken
        · simp [nothing]
        · rw [limited_eq_take] at taken
          exact oldIds_of_moved taken
      have takes_next : backend.takes batchSize (pickIds next.runs cutoff batchSize) = true := by
        rcases picked with ⟨-, rfl⟩ | taken
        · exact takes
        · exact takes_of_moved taken takes
      rw [ih kept again takes_next, rest, rows, List.filter_filter]
      refine List.filter_congr fun row _ => ?_
      simp [Bool.and_comm]

/-- A sweep whose first batch is refused moves nothing. -/
theorem archiveBatches_refused (conserved : Conserved start store) (ready : Ready store)
    (refused : backend.takes batchSize (pickIds store.runs cutoff batchSize) ≠ true) :
    (archiveBatches backend cutoff batchSize clock batches store moved).store = store := by
  cases batches with
  | zero => rfl
  | succ batches =>
    have stuck := (archiveBatch_isSome ready conserved.sound cutoff batchSize (clock moved)).trans
      (Bool.eq_false_iff.mpr refused)
    rw [archiveBatches, Option.not_isSome_iff_eq_none.mp (Bool.eq_false_iff.mp stuck)]

end Sweeps

theorem rows_archiveOldJobRuns (call : ArchiveCall) {store : Store} (sound : Sound store) :
    (archiveOldJobRuns call store).store.runs.rows =
      store.runs.rows.filter fun row => row.logId ∉ movedIds call store := by
  have conserved : Conserved store (ensureRequestHistoryTable store) :=
    conserved_ensureRequestHistoryTable ⟨sound, List.Perm.refl _, List.Perm.refl _⟩
  rw [archiveOldJobRuns, movedIds]
  split
  · simp
  · cases call.cutoff with
    | none => simp
    | some cutoff =>
      have allowed : call.batches (ensureRequestHistoryTable store) = call.batches store := by
        simp [ArchiveCall.batches]
      simp only
      split
      · next takes =>
          rw [rows_archiveBatches conserved (ready_ensureRequestHistoryTable store)
            (by rwa [ensureRequestHistoryTable_runs]), allowed, ensureRequestHistoryTable_runs]
      · next refused =>
          rw [archiveBatches_refused conserved (ready_ensureRequestHistoryTable store)
            (by rwa [ensureRequestHistoryTable_runs]), ensureRequestHistoryTable_runs]
          simp

/-! ## What is due -/

/-- What the scan reads of a command when it asks whether it is due. -/
structure ScheduledCommand where
  appCommandId : String
  timeWindow : TimeWindow
  runMode : RunMode

/-- A failed command retries after a minute, and an unstated timeout is five; only a `sync` command waits
for its own run. -/
def appCommandDue (fromIsoFormat : String → Option IsoReading) (appCommand : ScheduledCommand)
    (latestRun : Option JobRunRow) (now : Instant) : DueVerdict :=
  dueFromRow fromIsoFormat appCommand.timeWindow (latestRun.map JobRunRow.columns) now (some 60) (some 300) none
    (appCommand.runMode.mode ≠ .async)

def ScheduledCommand.dueFrom (appCommand : ScheduledCommand) (fromIsoFormat : String → Option IsoReading)
    (latestRun : Option JobRunRow) : DueFrom :=
  Lib.DueRule.dueFrom (runAnchor fromIsoFormat (latestRun.map JobRunRow.columns))
    (rowStatus (latestRun.map JobRunRow.columns)) appCommand.timeWindow.repeatInterval
    (appCommand.timeWindow.retryInterval.or (some 60)) (appCommand.timeWindow.timeout.or (some 300))
    (appCommand.timeWindow.timeout = some 0) none (appCommand.runMode.mode ≠ .async)

theorem appCommandDue_iff {fromIsoFormat : String → Option IsoReading} {appCommand : ScheduledCommand}
    {latestRun : Option JobRunRow} {now : Instant} :
    (appCommandDue fromIsoFormat appCommand latestRun now).due = true ↔
      appCommand.dueFrom fromIsoFormat latestRun ≤ fromMoment now := explainDue_due_iff

/-- The moment of the call. -/
def calledAt (call : ArchiveCall) : Instant := call.now.val * microsecondsPerSecond

/-- The command's newest run that the call does not move. -/
def latestUnmoved (call : ArchiveCall) (store : Store) (jobCode : String) : Option JobRunRow :=
  (store.runs.rows.filter fun row => row.jobCode = jobCode && row.logId ∉ movedIds call store).argmax JobRunRow.logId

theorem latestJobRun_archiveOldJobRuns (call : ArchiveCall) {store : Store} (sound : Sound store) (jobCode : String) :
    latestJobRun (archiveOldJobRuns call store).store.runs jobCode = latestUnmoved call store jobCode := by
  rw [latestJobRun, rows_archiveOldJobRuns call sound, List.filter_filter, latestUnmoved]

/-- From the call on the command is due at the same moments as before it when the newest run that stays
makes it due from the same moment as the newest run, or both do by the call; and only then. -/
theorem same_due_after_archive_iff (call : ArchiveCall) (store : Store) (sound : Sound store)
    (fromIsoFormat : String → Option IsoReading) (appCommand : ScheduledCommand) :
    (∀ now, calledAt call ≤ now →
      (appCommandDue fromIsoFormat appCommand
        (latestJobRun (archiveOldJobRuns call store).store.runs appCommand.appCommandId) now).due =
      (appCommandDue fromIsoFormat appCommand (latestJobRun store.runs appCommand.appCommandId) now).due) ↔
      max (fromMoment (calledAt call))
          (appCommand.dueFrom fromIsoFormat (latestUnmoved call store appCommand.appCommandId)) =
        max (fromMoment (calledAt call))
          (appCommand.dueFrom fromIsoFormat (latestJobRun store.runs appCommand.appCommandId)) := by
  rw [latestJobRun_archiveOldJobRuns call sound, ← due_together_iff]
  refine forall_congr' fun now => imp_congr_right fun _ => ?_
  rw [Bool.eq_iff_iff, appCommandDue_iff, appCommandDue_iff]

section Reports

/-- The reports, run on the day of the store's January run. -/
def reports (repeatInterval : Int) : ScheduledCommand where
  appCommandId := "APP-REPORTS"
  timeWindow := ⟨some repeatInterval, none, none⟩
  runMode := ⟨.sync, 1⟩

/-- Daily reports were due before their January run was archived, and are. -/
theorem same_due_after_archive_iff_daily :
    (appCommandDue readStamp (reports 86400)
      (latestJobRun (archiveOldJobRuns (octoberCall 20000 none) januaryStore).store.runs "APP-REPORTS")
      (calledAt (octoberCall 20000 none))).due =
    (appCommandDue readStamp (reports 86400) (latestJobRun januaryStore.runs "APP-REPORTS")
      (calledAt (octoberCall 20000 none))).due :=
  (same_due_after_archive_iff (octoberCall 20000 none) januaryStore sound_januaryStore readStamp (reports 86400)).mpr
    (by decide +kernel) _ le_rfl

/-- Reports that run once have run in January, and are due again once that run is archived. -/
theorem archived_run_once_is_due_again :
    ¬ ∀ (call : ArchiveCall) (store : Store) (appCommand : ScheduledCommand) (now : Instant), Sound store →
      calledAt call ≤ now →
      (appCommandDue readStamp appCommand
        (latestJobRun (archiveOldJobRuns call store).store.runs appCommand.appCommandId) now).due =
      (appCommandDue readStamp appCommand (latestJobRun store.runs appCommand.appCommandId) now).due := by
  intro unchanged
  have due := unchanged (octoberCall 20000 none) januaryStore (reports runOnce) (calledAt (octoberCall 20000 none))
    sound_januaryStore (le_refl _)
  have changed : (appCommandDue readStamp (reports runOnce)
        (latestJobRun (archiveOldJobRuns (octoberCall 20000 none) januaryStore).store.runs "APP-REPORTS")
        (calledAt (octoberCall 20000 none))).due ≠
      (appCommandDue readStamp (reports runOnce) (latestJobRun januaryStore.runs "APP-REPORTS")
        (calledAt (octoberCall 20000 none))).due := by decide +kernel
  exact changed due

end Reports

end DbaBrain.Jobs.DueAfterArchive
