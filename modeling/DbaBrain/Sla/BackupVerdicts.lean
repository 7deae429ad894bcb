import DbaBrain.Sla.Compliance

/-!
# Judging backups and restore drills

The backup policy is judged on the newest cycle of backup rows, a restore drill
on the whole history.  Both count breaches and say themselves what missing data
comes to.
-/

namespace DbaBrain.Sla.BackupVerdicts

open DbaBrain.Foundation.Text DbaBrain.Db.MetricStore DbaBrain.Lib.Coerce DbaBrain.Sla.Compliance

/-! ## Backups -/

inductive BackupState
  | critical
  | warning
  | ok
  | notRequired
  | unknown
  deriving DecidableEq

/-- A backup type of a database, or its data backup; the limits as they are printed. -/
structure Slot (F : Type) where
  required : Bool
  state : BackupState
  ageHours : Option F
  warnHours : String
  criticalHours : String

/-- A database as `evaluate_backup_policy` judges it. -/
structure DatabaseEntry (F : Type) where
  database : String
  types : List (String × Slot F)
  dataBackup : Option (List String × Slot F)

/-- The target of a policy that covers the fleet. -/
def aggregateTarget : String := "*"

section Backups

variable {F : Type} (floats : Floats F)

def ageText (hours : F) : String :=
  if floats.lt hours (floats.ofInt 48) then toString (floats.nearest hours) ++ "h"
  else toString (floats.nearest (floats.div hours (floats.ofInt 24))) ++ "d"

/-- What a required slot that is critical is called; `never` when there is no backup. -/
def breachOf (name never : String) (slot : Slot F) : Option String :=
  if slot.required = false ∨ slot.state ≠ .critical then none
  else
    match slot.ageHours with
    | none => some (name ++ ": " ++ never ++ " (limit " ++ slot.criticalHours ++ "h)")
    | some age => some (name ++ ": " ++ ageText floats age ++ " old (limit " ++ slot.criticalHours ++ "h)")

def warningOf (name : String) (slot : Slot F) : Option String :=
  if slot.required = false ∨ slot.state ≠ .warning then none
  else
    some (name ++ ": " ++ (slot.ageHours.map (ageText floats)).getD "" ++ " old (warn limit " ++ slot.warnHours ++ "h)")

def dataName (entry : DatabaseEntry F) (ofTypes : List String) : String :=
  entry.database ++ " data backup (" ++ " or ".intercalate (if ofTypes = [] then ["FULL", "DIFF"] else ofTypes) ++ ")"

def DatabaseEntry.breaches (entry : DatabaseEntry F) : List String :=
  entry.types.filterMap (fun type => breachOf floats (entry.database ++ " " ++ type.1) "required and never backed up" type.2) ++
    entry.dataBackup.toList.filterMap fun data => breachOf floats (dataName entry data.1) "none on record" data.2

def DatabaseEntry.warnings (entry : DatabaseEntry F) : List String :=
  entry.types.filterMap (fun type => warningOf floats (entry.database ++ " " ++ type.1) type.2) ++
    entry.dataBackup.toList.filterMap fun data => warningOf floats (dataName entry data.1) data.2

def DatabaseEntry.slots (entry : DatabaseEntry F) : List (Slot F) :=
  entry.types.map Prod.snd ++ entry.dataBackup.toList.map Prod.snd

/-- The databases with a required slot that `holds` is true of. -/
def databasesWith (holds : BackupState → Bool) (databases : List (DatabaseEntry F)) : Finset String :=
  ((databases.filter fun entry => entry.slots.any fun slot => slot.required && holds slot.state).map
    DatabaseEntry.database).toFinset

/-- A result with nothing measured. -/
def unmeasured (policy : SlaPolicy F) (targetId : String) (status : Status) (totalCount : Nat) (noData : Bool)
    (compliant : Option Bool) (quality : Quality) (reason : String) : SlaPolicyResult F :=
  { targetId := targetId
    status := status
    actualPercent := floats.zero
    errorBudgetPercent := floats.zero
    budgetConsumedPercent := floats.zero
    budgetRemainingPercent := floats.zero
    totalCount := totalCount
    goodCount := 0
    badCount := 0
    noData := noData
    failuresByStatus := []
    currentStatus := ""
    affectedObjects := 0
    actualValue := none
    objectiveValue := policy.targetValue.getD floats.zero
    compliant := compliant
    expectedSampleCount := 0
    coveragePercent := floats.zero
    dataQualityStatus := quality
    dataFreshnessSeconds := none
    reason := reason
    errorBudgetConsumed := floats.zero
    errorBudgetRemaining := floats.zero
    burnRate := none
    burnRates := []
    burnAlert := none }

def counted (policy : SlaPolicy F) (targetId : String) (status : Status) (totalCount goodCount badCount : Nat)
    (breached : Bool) (failuresByStatus : List (String × Nat)) (affectedObjects breaches : Nat) (quality : Quality)
    (reason : String) : SlaPolicyResult F :=
  { targetId := targetId
    status := status
    actualPercent := if breached then floats.zero else floats.hundred
    errorBudgetPercent := floats.zero
    budgetConsumedPercent := if breached then floats.hundred else floats.zero
    budgetRemainingPercent := if breached then floats.zero else floats.hundred
    totalCount := totalCount
    goodCount := goodCount
    badCount := badCount
    noData := false
    failuresByStatus := failuresByStatus
    currentStatus := if breached then "BAD" else "OK"
    affectedObjects := affectedObjects
    actualValue := some (floats.ofInt breaches)
    objectiveValue := policy.targetValue.getD floats.zero
    compliant := some (compare floats (floats.ofInt breaches) (policy.targetValue.getD floats.zero) policy.comparisonOperator)
    expectedSampleCount := 0
    coveragePercent := floats.hundred
    dataQualityStatus := quality
    dataFreshnessSeconds := none
    reason := reason
    errorBudgetConsumed := floats.zero
    errorBudgetRemaining := floats.zero
    burnRate := none
    burnRates := []
    burnAlert := none }

/-- What a policy makes of a cycle that is not there. -/
def missingVerdict (policy : SlaPolicy F) : Option Bool :=
  if excludesMissing policy then some true else if policy.missingDataPolicy = .bad then some false else none

variable (upper : String → String)

/- The backup policy's document: whether it carries a rule, and `evaluate_backup_policy` of a server's rows. -/

variable (configured : Bool) (evaluateBackupPolicy : String → List MetricRow → List (DatabaseEntry F))

/-- The rows of a target outside its maintenance, and those of them that measured something. -/
def keptRows (policy : SlaPolicy F) (rows : List MetricRow) : List MetricRow :=
  rows.filter fun row => !isMaintenanceSample row.collectedAt policy.maintenanceWindows

def backupRows (policy : SlaPolicy F) (rows : List MetricRow) : List MetricRow :=
  latestCycle ((keptRows policy rows).filter fun row => !isCollectionFailure upper row)

/-- The server whose databases are judged: the first row's, or the first part of the target. -/
def serverOf (targetId : String) (rows : List MetricRow) : String :=
  let serverId := (rows.head?.map fun row => row.serverId).getD ""
  if serverId = "" ∧ targetId ≠ aggregateTarget then String.ofList (targetId.toList.takeWhile fun c => c ≠ '/') else serverId

def databasesOf (policy : SlaPolicy F) (targetId : String) (rows : List MetricRow) : List (DatabaseEntry F) :=
  evaluateBackupPolicy (serverOf targetId (backupRows upper policy rows)) (backupRows upper policy rows)

def backupBreaches (databases : List (DatabaseEntry F)) : List String := databases.flatMap (DatabaseEntry.breaches floats)

def backupWarnings (databases : List (DatabaseEntry F)) : List String := databases.flatMap (DatabaseEntry.warnings floats)

/-- The result where the newest cycle has no row; every attempt there was failed. -/
def missingBackups (policy : SlaPolicy F) (targetId : String) (rows : List MetricRow) : SlaPolicyResult F :=
  let kept := keptRows policy rows
  let collectionRows := kept.filter (isCollectionFailure upper)
  let quality : Quality :=
    if excludesMissing policy then .missingExcluded else if collectionRows = [] then .noData else .collectionFailed
  let status : Status :=
    match missingVerdict policy with
    | none => .noData
    | some true => .passed
    | some false => .failed
  unmeasured floats policy targetId status kept.length true (missingVerdict policy) quality
    (qualityReason quality (kept.length - collectionRows.length) policy.minimumSampleCount)

/-- The result where databases are judged: the counts are of databases, the reasons of their slots. -/
def judgedBackups (policy : SlaPolicy F) (targetId : String) (rows : List MetricRow)
    (databases : List (DatabaseEntry F)) : SlaPolicyResult F :=
  let collectionRows := (keptRows policy rows).filter (isCollectionFailure upper)
  let breaches := backupBreaches floats databases
  let warnings := backupWarnings floats databases
  let judgedDbs := databasesWith (fun _ => true) databases
  let breachDbs := databasesWith (fun state => state = .critical) databases
  let warningDbs := databasesWith (fun state => state = .warning) databases
  let status : Status := if breaches ≠ [] then .failed else if warnings ≠ [] then .atRisk else .passed
  let reason :=
    if breaches ≠ [] then "; ".intercalate breaches
    else if warnings ≠ [] then "; ".intercalate warnings
    else "Every required backup is within policy thresholds."
  counted floats policy targetId status judgedDbs.card (judgedDbs \ breachDbs).card breachDbs.card
    (decide (breaches ≠ []))
    (if breaches ≠ [] ∨ warnings ≠ [] then [("CRITICAL", breaches.length), ("WARNING", warnings.length)] else [])
    (breachDbs ∪ warningDbs).card breaches.length (if collectionRows = [] then .ok else .collectionFailed) reason

def buildBackupRpoResult (policy : SlaPolicy F) (targetId : String) (rows : List MetricRow) : SlaPolicyResult F :=
  let latestRows := backupRows upper policy rows
  let databases := databasesOf upper evaluateBackupPolicy policy targetId rows
  if configured = false then
    unmeasured floats policy targetId .notConfigured rows.length (decide (rows = [])) (some false)
      (if rows = [] then .noData else .ok)
      "no backup policy configured: data/backup_policy.json is absent or carries no rule, so backup ages are unjudged, not compliant"
  else if latestRows = [] then missingBackups floats upper policy targetId rows
  else if databases = [] then
    unmeasured floats policy targetId .noData latestRows.length true none .noData
      "No database backup evidence found in latest cycle."
  else judgedBackups floats upper policy targetId rows databases

end Backups

/-! ## Restore drills -/

/-- A row of `backup_restore_history`; its duration as `float` reads it. -/
structure DrillRow (F : Type) where
  databaseName : String
  status : String
  restoreStart : String
  durationSeconds : Option F

/-- A database as `restore_drill.evaluate` judges it. -/
structure DrillVerdict where
  databaseName : String
  status : String
  reason : String
  lastSuccess : Option String

section Drills

variable {F : Type} (floats : Floats F) (upper : String → String)

def newestSuccessDuration (database : String) (rows : List (DrillRow F)) : Option F :=
  let successes := rows.filter fun row => strip row.databaseName = database && upper (strip row.status) = "SUCCESS"
  ((successes.mergeSort fun first second => second.restoreStart ≤ first.restoreStart).head?).bind DrillRow.durationSeconds

def rtoExceeded (policy : SlaPolicy F) (duration : Option F) : Bool :=
  match policy.rtoTargetSeconds, duration with
  | some target, some duration => floats.lt (floats.ofInt target) duration
  | _, _ => false

def drillBreach (policy : SlaPolicy F) (rows : List (DrillRow F)) (verdict : DrillVerdict) : Option String :=
  let duration := newestSuccessDuration upper verdict.databaseName rows
  let durationText := (duration.map fun duration => toString (floats.trunc duration) ++ "s").getD "none"
  let rtoText := match policy.rtoTargetSeconds with
    | none | some 0 => "-"
    | some target => toString target ++ "s"
  let evidence :=
    "(last success " ++ verdict.lastSuccess.getD "never" ++ ", duration " ++ durationText ++ ", target " ++ rtoText ++ ")"
  let exceeds := "duration " ++ durationText ++ " exceeds target " ++ rtoText ++ " "
  if verdict.status ≠ "OK" ∧ rtoExceeded floats policy duration then
    some (verdict.databaseName ++ ": " ++ verdict.reason ++ "; " ++ exceeds ++ evidence)
  else if rtoExceeded floats policy duration then some (verdict.databaseName ++ ": " ++ exceeds ++ evidence)
  else if verdict.status ≠ "OK" then some (verdict.databaseName ++ ": " ++ verdict.reason ++ " " ++ evidence)
  else none

/- `restore_drill.evaluate`, under the drill policy and at the end of the window. -/

variable (evaluate : List (DrillRow F) → List DrillVerdict)

def drillBreaches (policy : SlaPolicy F) (rows : List (DrillRow F)) : List String :=
  (evaluate rows).filterMap (drillBreach floats upper policy rows)

/-- `_evaluate_restore_drill_policy`, of the history or of what made it unreadable. -/
def restoreDrillResult (policy : SlaPolicy F) (history : Except String (List (DrillRow F))) : SlaPolicyResult F :=
  match history with
  | .error unreadable =>
      unmeasured floats policy aggregateTarget .noData 0 true none .noData
        ("backup_restore_history cannot be read: " ++ unreadable)
  | .ok [] =>
      unmeasured floats policy aggregateTarget .noData 0 true none .noData
        "No restore drill has ever been recorded in backup_restore_history."
  | .ok (first :: rest) =>
      let rows := first :: rest
      let breaches := drillBreaches floats upper evaluate policy rows
      let total := (evaluate rows).length
      counted floats policy aggregateTarget (if breaches ≠ [] then .failed else .passed) total (total - breaches.length)
        breaches.length (decide (breaches ≠ [])) [] breaches.length breaches.length .ok
        (if breaches ≠ [] then "; ".intercalate breaches
        else "Every database has a proven restore drill within policy and RTO target.")

end Drills

end DbaBrain.Sla.BackupVerdicts
