import DbaBrain.Db.MetricStore
import DbaBrain.Lib.Coerce

/-!
# Judging an SLA policy

What a policy's samples come to: a status, whether the objective is met, and the
counts behind it.  Samples are judged row by row or minute by minute; backups and
restore drills have builders of their own.
-/

namespace DbaBrain.Sla.Compliance

open DbaBrain.Foundation.Text DbaBrain.Db.MetricStore DbaBrain.Lib.Coerce

/-! ## Numbers -/

/-- Python's floats. -/
structure Floats (F : Type) where
  ofInt : Int → F
  add : F → F → F
  sub : F → F → F
  mul : F → F → F
  div : F → F → F
  lt : F → F → Bool
  le : F → F → Bool
  eq : F → F → Bool
  round : F → Nat → F
  floor : F → Int
  ceil : F → Int
  trunc : F → Int
  nearest : F → Int
  sum : List F → F
  isFinite : F → Bool
  ofText : String → Option F

namespace Floats

variable {F : Type} (floats : Floats F)

/-- `max(first, second)`: the first, unless the second is above it. -/
def max (first second : F) : F := if floats.lt first second then second else first

def min (first second : F) : F := if floats.lt second first then second else first

def zero : F := floats.ofInt 0

def hundred : F := floats.ofInt 100

/-- `part / whole * 100`. -/
def percent (part whole : Nat) : F := floats.mul (floats.div (floats.ofInt part) (floats.ofInt whole)) floats.hundred

end Floats

/-! ## Policies and results -/

inductive PolicyModel
  | timeSlo
  | currentState
  | findingInventory
  | backupRpo
  | restoreDrill
  deriving DecidableEq

inductive Aggregation
  | successRatio
  | average
  | minimum
  | maximum
  | sum
  | count
  | latest
  | percentile
  | minutes
  deriving DecidableEq

inductive Operator
  | ge
  | gt
  | le
  | lt
  | eq
  | ne
  deriving DecidableEq

inductive MissingData
  | unknown
  | bad
  | good
  | ignore
  deriving DecidableEq

inductive Severity
  | page
  | ticket
  deriving DecidableEq

structure BurnRateAlert (F : Type) where
  severity : Severity
  factor : F
  longWindowMinutes : Nat
  shortWindowMinutes : Nat

/-- What the judging reads of a policy. -/
structure SlaPolicy (F : Type) where
  policyId : String
  metricCodes : List String
  objectivePercent : F
  windowHours : Nat
  goodStatuses : List String
  atRiskBudgetPercent : F
  aggregation : Aggregation
  policyModel : PolicyModel
  comparisonOperator : Operator
  targetValue : Option F
  minimumSampleCount : Nat
  expectedCollectionIntervalSeconds : Option Nat
  freshnessThresholdSeconds : Option Nat
  missingDataPolicy : MissingData
  maintenanceWindows : List (String × String)
  percentile : F
  rtoTargetSeconds : Option Nat
  burnRateAlerts : List (BurnRateAlert F)

inductive Status
  | passed
  | atRisk
  | burning
  | failed
  | noData
  | stale
  | insufficientData
  | notConfigured
  deriving DecidableEq

inductive Quality
  | ok
  | noData
  | collectionFailed
  | stale
  | insufficientData
  | missingExcluded

/-- A result, less what it copies from its policy and its window. -/
structure SlaPolicyResult (F : Type) where
  targetId : String
  status : Status
  actualPercent : F
  errorBudgetPercent : F
  budgetConsumedPercent : F
  budgetRemainingPercent : F
  totalCount : Int
  goodCount : Int
  badCount : Int
  noData : Bool
  failuresByStatus : List (String × Nat)
  currentStatus : String
  affectedObjects : Nat
  actualValue : Option F
  objectiveValue : F
  compliant : Option Bool
  expectedSampleCount : Nat
  coveragePercent : F
  dataQualityStatus : Quality
  dataFreshnessSeconds : Option F
  reason : String
  errorBudgetConsumed : F
  errorBudgetRemaining : F
  burnRate : Option F
  burnRates : List (String × Option F)
  burnAlert : Option Severity

section Judging

variable {F : Type} (floats : Floats F)

def compare (actual objective : F) : Operator → Bool
  | .ge => floats.le objective actual
  | .gt => floats.lt objective actual
  | .le => floats.le actual objective
  | .lt => floats.lt actual objective
  | .eq => floats.eq actual objective
  | .ne => !floats.eq actual objective

def resolveStatus (noData meetsObjective : Bool) (budgetRemainingPercent atRiskBudgetPercent : F) : Status :=
  if noData then .noData
  else if meetsObjective = false then .failed
  else if floats.le budgetRemainingPercent atRiskBudgetPercent then .atRisk
  else .passed

def qualityReason (status : Quality) (count minimum : Nat) : String :=
  match status with
  | .noData => "No observations were collected in the evaluation window."
  | .stale => "The newest observation exceeds the configured freshness threshold."
  | .insufficientData =>
      "Only " ++ toString count ++ " samples are available; at least " ++ toString minimum ++ " are required."
  | .missingExcluded => "Missing observations were excluded by policy."
  | .ok | .collectionFailed => "Observations are sufficiently fresh and complete for evaluation."

/-- What a builder found of a target. -/
structure Findings (F : Type) where
  targetId : String
  totalCount : Int
  goodCount : Int
  badCount : Int
  actualValue : Option F
  actualPercent : F
  expectedCount : Nat
  coverage : F
  noData : Bool
  collectionRowsCount : Nat
  failuresByStatus : List (String × Nat)
  affectedObjects : Nat
  currentStatus : String
  freshness : Option F
  samplesForSufficiency : Nat
  burnRates : List (String × Option F)
  burnAlert : Option Severity

/-- The newest observation is older than the policy allows. -/
def isStale (policy : SlaPolicy F) (found : Findings F) : Bool :=
  match policy.freshnessThresholdSeconds, found.freshness with
  | some threshold, some freshness => floats.lt (floats.ofInt threshold) freshness
  | _, _ => false

def isInsufficient (policy : SlaPolicy F) (found : Findings F) : Bool :=
  !found.noData && decide (found.samplesForSufficiency < policy.minimumSampleCount)

def excludesMissing (policy : SlaPolicy F) : Bool := policy.missingDataPolicy = .good || policy.missingDataPolicy = .ignore

/-- `compliant`: first what the value comes to, then what the policy makes of missing data. -/
def compliance (policy : SlaPolicy F) (found : Findings F) : Option Bool :=
  let judged :=
    if found.noData || isStale floats policy found || isInsufficient policy found then none
    else
      found.actualValue.map fun actual =>
        compare floats actual (policy.targetValue.getD policy.objectivePercent) policy.comparisonOperator
  if found.noData && excludesMissing policy then some true
  else if found.noData && decide (policy.missingDataPolicy = .bad) then some false
  else judged

/-- The error budget a policy has, what is bad, and how much is consumed of the budget and how much remains. -/
structure Budget (F : Type) where
  errorBudgetPercent : F
  badPercent : F
  consumedPercent : F
  remainingPercent : F

def budgetOf (policy : SlaPolicy F) (found : Findings F) : Budget F :=
  let budgeted :=
    (policy.aggregation = .successRatio || policy.aggregation = .minutes) && policy.policyModel = .timeSlo
  let errorBudgetPercent :=
    if budgeted then floats.round (floats.sub floats.hundred policy.objectivePercent) 4 else floats.zero
  let badPercent := if budgeted then floats.round (floats.sub floats.hundred found.actualPercent) 4 else floats.zero
  if found.noData then ⟨errorBudgetPercent, badPercent, floats.zero, floats.zero⟩
  else
    let rawConsumed :=
      if floats.lt floats.zero errorBudgetPercent then
        floats.mul (floats.div badPercent errorBudgetPercent) floats.hundred
      -- A 100% objective has no budget: any bad sample consumes it.
      else if floats.le badPercent floats.zero then floats.zero
      else floats.hundred
    let consumed := floats.round (floats.min floats.hundred (floats.max floats.zero rawConsumed)) 2
    ⟨errorBudgetPercent, badPercent, consumed, floats.round (floats.sub floats.hundred consumed) 2⟩

/-- `status`: resolved, then overridden in turn. -/
def statusOf (policy : SlaPolicy F) (found : Findings F) : Status :=
  let resolved :=
    resolveStatus floats (found.noData && decide (policy.missingDataPolicy = .unknown))
      ((compliance floats policy found).getD false) (budgetOf floats policy found).remainingPercent
      policy.atRiskBudgetPercent
  let overridden :=
    if isStale floats policy found then .stale
    else if isInsufficient policy found then .insufficientData
    else resolved
  if found.burnAlert = some .page ∧ (overridden = .passed ∨ overridden = .atRisk) then .burning else overridden

def qualityOf (policy : SlaPolicy F) (found : Findings F) : Quality :=
  if found.noData && excludesMissing policy then .missingExcluded
  else if found.noData then .noData
  else if 0 < found.collectionRowsCount then .collectionFailed
  else if isStale floats policy found then .stale
  else if isInsufficient policy found then .insufficientData
  else .ok

def judgeVerdict (policy : SlaPolicy F) (found : Findings F) : SlaPolicyResult F :=
  let budget := budgetOf floats policy found
  { targetId := found.targetId
    status := statusOf floats policy found
    actualPercent := found.actualPercent
    errorBudgetPercent := budget.errorBudgetPercent
    budgetConsumedPercent := budget.consumedPercent
    budgetRemainingPercent := budget.remainingPercent
    totalCount := found.totalCount
    goodCount := found.goodCount
    badCount := found.badCount
    noData := found.noData
    failuresByStatus := found.failuresByStatus
    currentStatus := found.currentStatus
    affectedObjects := found.affectedObjects
    actualValue := found.actualValue
    objectiveValue := policy.targetValue.getD policy.objectivePercent
    compliant := compliance floats policy found
    expectedSampleCount := found.expectedCount
    coveragePercent := found.coverage
    dataQualityStatus := qualityOf floats policy found
    dataFreshnessSeconds := found.freshness
    reason := qualityReason (qualityOf floats policy found) found.samplesForSufficiency policy.minimumSampleCount
    errorBudgetConsumed := floats.min budget.errorBudgetPercent budget.badPercent
    errorBudgetRemaining := floats.max floats.zero (floats.sub budget.errorBudgetPercent budget.badPercent)
    burnRate :=
      if floats.lt floats.zero budget.errorBudgetPercent ∧ found.noData = false then
        some (floats.round (floats.div budget.badPercent budget.errorBudgetPercent) 4)
      else none
    burnRates := found.burnRates
    burnAlert := found.burnAlert }

end Judging

/-! ## Samples -/

def collectionFailureTypes : List String := ["AUTH_FAILED", "CONNECT_FAILED", "QUERY_FAILED", "PERMISSION_DENIED"]

def isMaintenanceSample (collectedAt : String) (windows : List (String × String)) : Bool :=
  windows.any fun window => window.1 ≤ collectedAt && collectedAt ≤ window.2

section Samples

variable {F : Type} (floats : Floats F)

/- `str.upper`, and `_parse_time`; a text that has no time raises and ends the run. -/

variable (upper : String → String) (parseTime : String → Instant)

def isCollectionFailure (row : MetricRow) : Bool := upper (strip (row.errorType.getD "")) ∈ collectionFailureTypes

/-- The newest collection of a metric, if any row of it has a time. -/
def newestOf (rows : List MetricRow) (metricCode : String) : Option String :=
  rows.foldl
    (fun newest row =>
      if row.metricCode = metricCode ∧ newest.getD "" < row.collectedAt then some row.collectedAt else newest)
    none

def latestCycle (rows : List MetricRow) : List MetricRow :=
  rows.filter fun row => newestOf rows row.metricCode = some row.collectedAt

def isGoodSample (policy : SlaPolicy F) (row : MetricRow) : Bool := upper row.status ∈ policy.goodStatuses.map upper

/-- `_percentile`. -/
def percentileOf (values : List F) (percentile : F) : F :=
  let ordered := values.mergeSort floats.le
  let position := floats.div (floats.mul (floats.ofInt (ordered.length - 1)) percentile) floats.hundred
  let at_ (index : Int) : F := ordered.getD index.toNat floats.zero
  let lower := floats.floor position
  let upper := floats.ceil position
  if lower = upper then at_ lower
  else floats.add (at_ lower) (floats.mul (floats.sub (at_ upper) (at_ lower)) (floats.sub position (floats.ofInt lower)))

/-- `_aggregate_value`; minutes are judged elsewhere. -/
def aggregateValue (policy : SlaPolicy F) (rows : List MetricRow) (goodCount : Nat) : Option F :=
  if rows = [] then none
  else if policy.aggregation = .successRatio then some (floats.percent goodCount rows.length)
  else
    let values := (rows.filterMap fun row => row.metricValue.bind floats.ofText).filter floats.isFinite
    match values with
    | [] => none
    | first :: rest =>
        let value :=
          match policy.aggregation with
          | .average => floats.div (floats.sum values) (floats.ofInt values.length)
          | .minimum => rest.foldl floats.min first
          | .maximum => rest.foldl floats.max first
          | .sum => floats.sum values
          | .latest => rest.getLastD first
          | .percentile => percentileOf floats values policy.percentile
          | .count | .successRatio | .minutes => floats.ofInt values.length
        some (floats.round value 6)

def countByStatus (rows : List MetricRow) : List (String × Nat) :=
  let statuses := rows.map fun row => upper row.status
  (statuses.dedup.mergeSort fun first second => first ≤ second).map fun status => (status, statuses.count status)

/-- The share of the collections that were expected, or of those attempted. -/
def coverageOf (windowRows collectionRows : List MetricRow) (expectedCount : Nat) : F :=
  let observedCycles := ((windowRows.map fun row => (row.metricCode, row.collectedAt)).dedup).length
  if expectedCount ≠ 0 then
    floats.round (floats.min floats.hundred (floats.percent observedCycles expectedCount)) 2
  else if collectionRows ≠ [] then
    floats.round (floats.percent windowRows.length (windowRows.length + collectionRows.length)) 2
  else if windowRows ≠ [] then floats.hundred
  else floats.zero

def expectedCountOf (policy : SlaPolicy F) : Nat :=
  match policy.expectedCollectionIntervalSeconds with
  | none => 0
  | some interval =>
      let cycles := floats.div (floats.ofInt (policy.windowHours * 3600)) (floats.ofInt interval)
      max 1 (floats.trunc cycles).toNat * max 1 policy.metricCodes.length

/-- The seconds since the newest row, attempted or measured. -/
def freshnessOf (windowEnd : String) (rows : List MetricRow) : Option F :=
  match (rows.map fun row => parseTime row.collectedAt) with
  | [] => none
  | first :: rest =>
      let newest := rest.foldl Max.max first
      some (floats.max floats.zero
        (floats.div (floats.ofInt (parseTime windowEnd - newest)) (floats.ofInt microsecondsPerSecond)))

/-- What `_build_result` finds in a target's rows. -/
def sampleFindings (policy : SlaPolicy F) (targetId windowEnd : String) (rows : List MetricRow) : Findings F :=
  let rows := rows.filter fun row => !isMaintenanceSample row.collectedAt policy.maintenanceWindows
  let collectionRows := rows.filter (isCollectionFailure upper)
  let windowRows := rows.filter fun row => !isCollectionFailure upper row
  let latestRows := latestCycle windowRows
  -- The two models of the present read the newest cycle, the others the window.
  let measuredRows :=
    if policy.policyModel = .currentState ∨ policy.policyModel = .findingInventory then latestRows else windowRows
  let goodCount := measuredRows.countP (isGoodSample upper policy)
  let badRows := measuredRows.filter fun row => !isGoodSample upper policy row
  let affectedObjects :=
    ((badRows.map fun row => if row.metricItem.getD "" = "" then row.metricCode else row.metricItem.getD "").dedup).length
  let actualValue :=
    match policy.policyModel with
    | .currentState => some (if badRows = [] then floats.hundred else floats.zero)
    | .findingInventory => some (floats.ofInt affectedObjects)
    | _ => aggregateValue floats policy measuredRows goodCount
  { targetId := targetId
    totalCount := measuredRows.length
    goodCount := goodCount
    badCount := badRows.length
    actualValue := actualValue
    actualPercent := (actualValue.map fun value => floats.round value 4).getD floats.zero
    expectedCount := expectedCountOf floats policy
    coverage := coverageOf floats windowRows collectionRows (expectedCountOf floats policy)
    noData := windowRows = []
    collectionRowsCount := collectionRows.length
    failuresByStatus := countByStatus upper badRows
    affectedObjects := affectedObjects
    currentStatus :=
      if latestRows = [] then "" else if latestRows.all (isGoodSample upper policy) then "OK" else "BAD"
    freshness := freshnessOf floats parseTime windowEnd rows
    samplesForSufficiency := windowRows.length
    burnRates := []
    burnAlert := none }

def buildResult (policy : SlaPolicy F) (targetId windowEnd : String) (rows : List MetricRow) : SlaPolicyResult F :=
  judgeVerdict floats policy (sampleFindings floats upper parseTime policy targetId windowEnd rows)

/-! ## Minutes -/

/-- What `minute_counts` and `minute_details` say of a target: the minutes observed and good by window, the collections
that failed, the newest row and whether its minute was up, and the failures. -/
structure MinuteSamples where
  counts : String → Nat × Nat
  collectionRows : Nat
  newest : Option String
  newestMinuteUp : Option Bool
  failuresByStatus : List (String × Nat)

def windowLabel (minutes : Nat) : String :=
  if 1440 ≤ minutes ∧ minutes % 1440 = 0 then toString (minutes / 1440) ++ "d"
  else if 60 ≤ minutes ∧ minutes % 60 = 0 then toString (minutes / 60) ++ "h"
  else toString minutes ++ "m"

/-- The windows the alerts are of, by their length; a label names one length. -/
def burnWindows (policy : SlaPolicy F) : List Nat :=
  ((policy.burnRateAlerts.flatMap fun pair => [pair.longWindowMinutes, pair.shortWindowMinutes]).dedup).mergeSort
    fun first second => first ≤ second

/-- How fast a window burns the budget, when it has observations and there is a budget. -/
def burnRateOf (policy : SlaPolicy F) (samples : MinuteSamples) (minutes : Nat) : Option F :=
  let budget := floats.sub (floats.ofInt 1) (floats.div policy.objectivePercent floats.hundred)
  let (observed, good) := samples.counts (windowLabel minutes)
  if observed = 0 ∨ floats.le budget floats.zero then none
  else
    let rate := floats.div (floats.ofInt ((observed : Int) - good)) (floats.ofInt observed)
    some (floats.round (floats.div rate budget) 4)

def isFiring (policy : SlaPolicy F) (samples : MinuteSamples) (pair : BurnRateAlert F) : Bool :=
  match burnRateOf floats policy samples pair.longWindowMinutes, burnRateOf floats policy samples pair.shortWindowMinutes with
  | some long, some short => floats.le pair.factor long && floats.le pair.factor short
  | _, _ => false

def burnAlertOf (policy : SlaPolicy F) (samples : MinuteSamples) : Option Severity :=
  let firing := (policy.burnRateAlerts.filter (isFiring floats policy samples)).map BurnRateAlert.severity
  if Severity.page ∈ firing then some .page else if Severity.ticket ∈ firing then some .ticket else none

/-- What `_evaluate_minutes_policy` finds of a target. -/
def minuteFindings (policy : SlaPolicy F) (targetId windowEnd : String) (samples : MinuteSamples) : Findings F :=
  let (observed, good) := samples.counts "policy"
  let actualValue := if observed = 0 then none else some (floats.percent good observed)
  { targetId := targetId
    totalCount := observed
    goodCount := good
    badCount := (observed : Int) - good
    actualValue := actualValue
    actualPercent := (actualValue.map fun value => floats.round value 4).getD floats.zero
    expectedCount := policy.windowHours * 60
    coverage :=
      if policy.windowHours = 0 then floats.zero
      else floats.round (floats.min floats.hundred (floats.percent observed (policy.windowHours * 60))) 2
    noData := observed = 0
    collectionRowsCount := samples.collectionRows
    failuresByStatus := samples.failuresByStatus
    affectedObjects := if good < observed then 1 else 0
    currentStatus := match samples.newestMinuteUp with
      | none => ""
      | some true => "OK"
      | some false => "BAD"
    freshness := samples.newest.map fun newest =>
      floats.max floats.zero
        (floats.div (floats.ofInt (parseTime windowEnd - parseTime newest)) (floats.ofInt microsecondsPerSecond))
    samplesForSufficiency := observed
    burnRates := (burnWindows policy).map fun minutes => (windowLabel minutes, burnRateOf floats policy samples minutes)
    burnAlert := burnAlertOf floats policy samples }

/-- `_evaluate_minutes_policy`, of one target. -/
def minutesResult (policy : SlaPolicy F) (targetId windowEnd : String) (samples : MinuteSamples) : SlaPolicyResult F :=
  judgeVerdict floats policy (minuteFindings floats parseTime policy targetId windowEnd samples)

end Samples

end DbaBrain.Sla.Compliance
