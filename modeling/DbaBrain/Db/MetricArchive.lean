import DbaBrain.Foundation.MoveRows
import DbaBrain.Db.MetricStore

/-!
# The metric archive beside its writers

`archive_old_results` counts, copies and deletes in one transaction, each
statement with the call's cutoff; collections insert their results meanwhile.
-/

namespace DbaBrain.Db.MetricArchive

open DbaBrain.Foundation DbaBrain.Foundation.Execution DbaBrain.Foundation.MoveRows DbaBrain.Db.MetricStore

/-- A result is inserted with the run that collected it. -/
def metricShape : Shape MetricRow (Int × MetricResult) where
  id := MetricRow.resultId
  make resultId item := insertedRow item.1 resultId item.2
  make_id _ _ := rfl

/-- What a call asks of the tables; one whose cutoff is no moment of the calendar raises before it asks. -/
def requestOf (call : ArchiveCall) : Option (Request MetricRow String) :=
  call.cutoff.map fun cutoff => ⟨isOld cutoff, call.archivedAt⟩

abbrev System (n : Nat) := State MetricRow String n

abbrev Label (n : Nat) := Step (Int × MetricResult) n

def step {n : Nat} (calls : Fin n → ArchiveCall) : System n → Label n → Option (System n) :=
  MoveRows.step metricShape fun call => requestOf (calls call)

def start (n : Nat) : System n := State.start MetricRow String n

/-- Every result ever committed is in one of the two tables, with its values, exactly when no call commits the
deletion of a row it has not copied. -/
theorem archive_loses_no_row_iff {n : Nat} (calls : Fin n → ArchiveCall) (labels : List (Label n)) :
    Every (step calls) (fun _ _ next => Kept next) (start n) labels ↔
      Every (step calls) (DeletesCopied metricShape) (start n) labels :=
  every_kept_iff labels

/-! ## A late result -/

/-- A call that keeps nothing in the live table, made on the first of October. -/
def octoberCall : ArchiveCall := ⟨63926409600, 0, "2026-10-01T00:00:00Z"⟩

/-- A second collection commits its result when the first one's is copied. -/
def lateInsert : List (Label 1) :=
  [.inserted 0 [(1, sampleResult)], .insertCommitted 0, .counted 0, .copyStarted 0, .copied 0,
    .inserted 1 [(2, sampleResult)], .insertCommitted 1, .deleteStarted 0, .deleted 0]

theorem late_insert_leaves : (exec (step fun _ => octoberCall) (start 1) (lateInsert ++ [.committed 0])).map
    (fun system => (system.live.length, system.archive.length, system.ever.length)) = some (0, 1, 2) := by
  decide +kernel

/-- The second result is deleted and never copied. -/
theorem late_result_is_lost : ¬∀ (n : Nat) (calls : Fin n → ArchiveCall) (labels : List (Label n)),
    Every (step calls) (fun _ _ next => Kept next) (start n) labels := by
  intro kept
  obtain ⟨final, run, counts⟩ := Option.map_eq_some_iff.mp late_insert_leaves
  obtain ⟨-, -, same⟩ := (kept 1 (fun _ => octoberCall) (lateInsert ++ [.committed 0])).ends run
  have lengths := same.length_eq
  rw [List.length_append, List.length_map] at lengths
  simp only [Prod.mk.injEq] at counts
  omega

end DbaBrain.Db.MetricArchive
