import DbaBrain.Foundation.Text

/-!
# The LSNs of a SQL Server restore chain

`sqlserver_chain_break` reads the LSNs of a FULL, its DIFF and its logs before
anything is restored. Where it finds no break SQL Server meets no gap, and the
lists it lets through are those whose logs, from the first that applies, each
start exactly where the one before ended; a log that overlaps another, or says
again what another said, is reported although SQL Server would take it.
-/

namespace DbaBrain.Lib.LsnChain

open DbaBrain.Foundation.Text (replaceChar append_ne_empty)

/-- What the check reads of a backup: an LSN the header did not give, or gave as no number, is absent. -/
structure Piece where
  path : String
  checkpointLsn : Option Int
  differentialBaseLsn : Option Int
  firstLsn : Option Int
  lastLsn : Option Int

def lsn (given : Option Int) : Int := given.getD 0

/-- The part of a path behind its last slash of either kind. -/
def name (item : Piece) : String :=
  String.ofList ((replaceChar '\\' '/' item.path).toList.reverse.takeWhile (· ≠ '/')).reverse

def otherFull (full diff : Piece) : String :=
  "the DIFF " ++ name diff ++ " is based on another FULL (its base LSN " ++ toString (lsn diff.differentialBaseLsn) ++
    ", the FULL " ++ name full ++ " has checkpoint LSN " ++ toString (lsn full.checkpointLsn) ++ ")"

def startsLate (kind : String) (anchor item : Piece) (previousEnd : Int) : String :=
  "the logs start at LSN " ++ toString (lsn item.firstLsn) ++ " (" ++ name item ++ ") after the " ++ kind ++ " " ++
    name anchor ++ " ends at LSN " ++ toString previousEnd ++ " - a log backup between them is missing"

def missingBefore (item : Piece) (previousEnd : Int) : String :=
  "a log backup is missing before " ++ name item ++ ": it starts at LSN " ++ toString (lsn item.firstLsn) ++
    ", the one before it ended at LSN " ++ toString previousEnd

/-- The loop over the logs. -/
def logsBreak (kind : String) (anchor : Piece) (started : Bool) (previousEnd : Int) : List Piece → String
  | [] => ""
  | item :: rest =>
      let first := lsn item.firstLsn
      let last := lsn item.lastLsn
      if first = 0 ∨ last = 0 ∨ previousEnd = 0 then ""
      else if !started then
        if last ≤ previousEnd then logsBreak kind anchor started previousEnd rest
        else if previousEnd < first then startsLate kind anchor item previousEnd
        else logsBreak kind anchor true last rest
      else if first ≠ previousEnd then missingBefore item previousEnd
      else logsBreak kind anchor started last rest

def sqlserverChainBreak (full : Piece) (diff : Option Piece) (logs : List Piece) : String :=
  let anchor := diff.getD full
  let base := lsn (diff.bind Piece.differentialBaseLsn)
  let checkpoint := lsn full.checkpointLsn
  if diff.isSome ∧ base ≠ 0 ∧ checkpoint ≠ 0 ∧ base ≠ checkpoint then otherFull full anchor
  else logsBreak (if diff.isSome then "DIFF" else "FULL") anchor false (lsn anchor.lastLsn) logs

/-! ## SQL Server's rules -/

/-- Where a database stands after a log is applied to it: a log that ends no later is too early and left out, one that
starts later does not apply. -/
def applyLog (position : Int) (log : Piece) : Option Int :=
  if lsn log.lastLsn ≤ position then some position
  else if lsn log.firstLsn ≤ position then some (lsn log.lastLsn)
  else none

def applyLogs (position : Int) (logs : List Piece) : Option Int := logs.foldlM applyLog position

/-- The restore meets no gap: a DIFF has its base, and each log in turn applies or is too early. -/
def Restores (full : Piece) (diff : Option Piece) (logs : List Piece) : Prop :=
  (∀ piece ∈ diff, lsn piece.differentialBaseLsn = lsn full.checkpointLsn) ∧
    (applyLogs (lsn (diff.getD full).lastLsn) logs).isSome = true

/-- From the first log that ends after a position, each log starts where the one before it ended. -/
def Consecutive (position : Int) (logs : List Piece) : Prop :=
  (logs.dropWhile fun log => lsn log.lastLsn ≤ position).IsChain fun one next =>
    lsn next.firstLsn = lsn one.lastLsn

/-- Every LSN the check reads was given. -/
structure Known (full : Piece) (diff : Option Piece) (logs : List Piece) : Prop where
  base : ∀ piece ∈ diff, lsn piece.differentialBaseLsn ≠ 0 ∧ lsn full.checkpointLsn ≠ 0
  anchor : lsn (diff.getD full).lastLsn ≠ 0
  logs : ∀ log ∈ logs, lsn log.firstLsn ≠ 0 ∧ lsn log.lastLsn ≠ 0

instance (full : Piece) (diff : Option Piece) (logs : List Piece) : Decidable (Restores full diff logs) :=
  inferInstanceAs (Decidable (_ ∧ _))

instance (position : Int) (logs : List Piece) : Decidable (Consecutive position logs) :=
  inferInstanceAs (Decidable (List.IsChain _ _))

/-! ## The loop -/

theorem startsLate_ne (kind : String) (anchor item : Piece) (previousEnd : Int) :
    startsLate kind anchor item previousEnd ≠ "" := by
  unfold startsLate
  iterate 10 refine append_ne_empty _ ?_
  decide

theorem missingBefore_ne (item : Piece) (previousEnd : Int) : missingBefore item previousEnd ≠ "" := by
  unfold missingBefore
  iterate 5 refine append_ne_empty _ ?_
  decide

theorem otherFull_ne (full diff : Piece) : otherFull full diff ≠ "" := by
  unfold otherFull
  iterate 8 refine append_ne_empty _ ?_
  decide

variable {kind : String} {anchor : Piece}

/-- Behind a log that applied the loop finds no break exactly where each log starts where the one before ended. -/
theorem logsBreak_started (applied : Piece) (logs : List Piece) (given : lsn applied.lastLsn ≠ 0)
    (known : ∀ log ∈ logs, lsn log.firstLsn ≠ 0 ∧ lsn log.lastLsn ≠ 0) :
    logsBreak kind anchor true (lsn applied.lastLsn) logs = "" ↔
      (applied :: logs).IsChain fun one next => lsn next.firstLsn = lsn one.lastLsn := by
  induction logs generalizing applied with
  | nil => simp [logsBreak]
  | cons log rest ih =>
    obtain ⟨⟨first, last⟩, others⟩ := List.forall_mem_cons.mp known
    rw [logsBreak, List.isChain_cons_cons, ← ih log last others]
    simp only [first, last, given, or_self, if_false, Bool.not_true, Bool.false_eq_true]
    split
    · rename_i gap
      exact iff_of_false (missingBefore_ne _ _) fun chained => gap chained.1
    · rename_i same
      rw [not_not] at same
      exact (and_iff_right same).symm

/-- Logs that each start where the one before ended apply to a database that stands no earlier. -/
theorem applyLogs_of_chain (applied : Piece) (logs : List Piece) (position : Int)
    (ahead : lsn applied.lastLsn ≤ position)
    (chained : (applied :: logs).IsChain fun one next => lsn next.firstLsn = lsn one.lastLsn) :
    (applyLogs position logs).isSome = true := by
  induction logs generalizing applied position with
  | nil => rfl
  | cons log rest ih =>
    obtain ⟨starts, later⟩ := List.isChain_cons_cons.mp chained
    rw [applyLogs, List.foldlM_cons, applyLog]
    split
    · rename_i early
      exact ih log position early later
    · rw [if_pos (starts.trans_le ahead)]
      exact ih log _ le_rfl later

/-- The loop from its start: no break exactly where no log meets a gap and the logs that apply are consecutive. -/
theorem logsBreak_iff (position : Int) (logs : List Piece) (given : position ≠ 0)
    (known : ∀ log ∈ logs, lsn log.firstLsn ≠ 0 ∧ lsn log.lastLsn ≠ 0) :
    logsBreak kind anchor false position logs = "" ↔
      (applyLogs position logs).isSome = true ∧ Consecutive position logs := by
  induction logs with
  | nil => simp [logsBreak, applyLogs, Consecutive]
  | cons log rest ih =>
    obtain ⟨⟨first, last⟩, others⟩ := List.forall_mem_cons.mp known
    rw [logsBreak, applyLogs, List.foldlM_cons, applyLog, Consecutive, List.dropWhile_cons]
    simp only [first, last, given, or_self, if_false, Bool.not_false, if_true, decide_eq_true_eq]
    by_cases early : lsn log.lastLsn ≤ position
    · rw [if_pos early, if_pos early, if_pos early]
      exact ih others
    · rw [if_neg early, if_neg early, if_neg early]
      by_cases late : position < lsn log.firstLsn
      · rw [if_pos late, if_neg (not_le.mpr late)]
        exact iff_of_false (startsLate_ne _ _ _ _) fun applies => by simp at applies
      · rw [if_neg late, if_pos (not_lt.mp late), logsBreak_started log rest last others]
        exact ⟨fun chained => ⟨applyLogs_of_chain log rest _ le_rfl chained, chained⟩, And.right⟩

/-- No break is found exactly where SQL Server meets no gap and, from the first log that applies, each log starts where
the one before it ended. -/
theorem chainBreak_eq_empty_iff {full : Piece} {diff : Option Piece} {logs : List Piece}
    (known : Known full diff logs) :
    sqlserverChainBreak full diff logs = "" ↔
      Restores full diff logs ∧ Consecutive (lsn (diff.getD full).lastLsn) logs := by
  unfold sqlserverChainBreak Restores
  dsimp only
  cases diff with
  | none =>
      rw [if_neg (by simp), logsBreak_iff _ logs known.anchor known.logs]
      simp
  | some piece =>
      obtain ⟨base, checkpoint⟩ := known.base piece rfl
      by_cases same : lsn piece.differentialBaseLsn = lsn full.checkpointLsn
      · rw [if_neg (by simp [same]), logsBreak_iff _ logs known.anchor known.logs]
        simp [same]
      · rw [if_pos ⟨rfl, base, checkpoint, same⟩]
        exact iff_of_false (otherFull_ne full piece) fun holds => same (holds.1.1 piece rfl)

section Instances

def fullTo1000 : Piece := ⟨"/b/SALESDB/FULL/SALESDB_FULL_1.bak", some 950, none, some 900, some 1000⟩

def logOf (path : String) (first last : Int) : Piece := ⟨path, none, none, some first, some last⟩

def consecutiveLogs : List Piece := [logOf "l0.trn" 800 990, logOf "l1.trn" 990 1100, logOf "l2.trn" 1100 1200]

theorem chainBreak_eq_empty_iff_consecutive :
    Known fullTo1000 none consecutiveLogs ∧ sqlserverChainBreak fullTo1000 none consecutiveLogs = "" := by
  have known : Known fullTo1000 none consecutiveLogs := ⟨by simp, by decide, by decide⟩
  exact ⟨known, (chainBreak_eq_empty_iff known).mpr ⟨by decide, by decide⟩⟩

/-- The second log starts within the first: SQL Server applies both, and the check reports a missing log. -/
theorem overlapping_log_is_reported :
    Known fullTo1000 none [logOf "l1.trn" 1000 1200, logOf "l2.trn" 1150 1250] ∧
      Restores fullTo1000 none [logOf "l1.trn" 1000 1200, logOf "l2.trn" 1150 1250] ∧
      sqlserverChainBreak fullTo1000 none [logOf "l1.trn" 1000 1200, logOf "l2.trn" 1150 1250] ≠ "" := by
  refine ⟨⟨by simp, by decide, by decide⟩, by decide, ?_⟩
  exact missingBefore_ne (logOf "l2.trn" 1150 1250) 1200

end Instances

end DbaBrain.Lib.LsnChain
