import DbaBrain.Sla.BackupVerdicts

/-!
# Whether a result agrees with itself

Reports count by the status and pages colour by compliance.  When the two agree,
with the counts and with a policy that leaves missing data out, is told for each
builder by what it was given.
-/

namespace DbaBrain.Sla.OneVerdict

open DbaBrain.Db.MetricStore DbaBrain.Lib.Coerce DbaBrain.Sla.Compliance DbaBrain.Sla.BackupVerdicts

/-- A result whose fields tell one verdict. -/
structure Agrees {F : Type} (policy : SlaPolicy F) (result : SlaPolicyResult F) : Prop where
  met : result.status = .passed ∨ result.status = .atRisk ∨ result.status = .burning ↔ result.compliant = some true
  failed : result.status = .failed ↔ result.compliant = some false
  unknown : result.status = .noData ∨ result.status = .stale ∨ result.status = .insufficientData ↔ result.compliant = none
  counts : result.goodCount + result.badCount = result.totalCount
  excluded : result.noData = true → excludesMissing policy = true → result.status = .passed

section Verdicts

variable {F : Type} (floats : Floats F) (policy : SlaPolicy F) (found : Findings F)

/-- The findings a policy comes to one verdict of. -/
def VerdictSound : Prop :=
  if found.noData then
    match policy.missingDataPolicy with
    | .unknown => True
    | .bad => isStale floats policy found = false
    | .good | .ignore =>
        isStale floats policy found = false ∧ floats.le floats.zero policy.atRiskBudgetPercent = false ∧
          found.burnAlert ≠ some .page
  else isStale floats policy found = true ∨ isInsufficient policy found = true ∨ found.actualValue ≠ none

variable {floats policy found}

/-- The status before a burn is asked about. -/
theorem statusOf_of_stale (stale : isStale floats policy found = true) : statusOf floats policy found = .stale := by
  simp [statusOf, stale]

theorem statusOf_of_insufficient (fresh : isStale floats policy found = false)
    (few : isInsufficient policy found = true) : statusOf floats policy found = .insufficientData := by
  simp [statusOf, fresh, few]

/-- Fresh and sufficient findings have the status their compliance resolves to, or burn. -/
theorem statusOf_of_fresh (fresh : isStale floats policy found = false) (enough : isInsufficient policy found = false) :
    statusOf floats policy found =
      if found.noData && decide (policy.missingDataPolicy = .unknown) then .noData
      else if (compliance floats policy found).getD false = false then .failed
      else if found.burnAlert = some .page then .burning
      else if floats.le (budgetOf floats policy found).remainingPercent policy.atRiskBudgetPercent then .atRisk
      else .passed := by
  unfold statusOf resolveStatus
  simp only [fresh, enough, Bool.false_eq_true, if_false]
  by_cases silent : (found.noData && decide (policy.missingDataPolicy = .unknown)) = true
  · simp [silent]
  · by_cases unmet : (compliance floats policy found).getD false = false
    · simp [silent, unmet]
    · by_cases risky : floats.le (budgetOf floats policy found).remainingPercent policy.atRiskBudgetPercent = true
      · simp [silent, unmet, risky]
      · simp [silent, unmet, risky]

theorem isInsufficient_of_noData (none : found.noData = true) : isInsufficient policy found = false := by
  simp [isInsufficient, none]

theorem remaining_of_noData (none : found.noData = true) :
    (budgetOf floats policy found).remainingPercent = floats.zero := by
  simp [budgetOf, none]

theorem agrees_of_data (data : found.noData = false)
    (counts : found.goodCount + found.badCount = found.totalCount) :
    Agrees policy (judgeVerdict floats policy found) ↔
      isStale floats policy found = true ∨ isInsufficient policy found = true ∨ found.actualValue ≠ none := by
  cases stale : isStale floats policy found with
  | true =>
    have unmeasured : compliance floats policy found = none := by simp [compliance, data, stale]
    have status := statusOf_of_stale stale
    refine iff_of_true ⟨?_, ?_, ?_, counts, ?_⟩ (Or.inl rfl)
    · simp [judgeVerdict, status, unmeasured]
    · simp [judgeVerdict, status, unmeasured]
    · simp [judgeVerdict, status, unmeasured]
    · simp [judgeVerdict, data]
  | false =>
    cases few : isInsufficient policy found with
    | true =>
      have unmeasured : compliance floats policy found = none := by simp [compliance, data, few]
      have status := statusOf_of_insufficient stale few
      refine iff_of_true ⟨?_, ?_, ?_, counts, ?_⟩ (Or.inr (Or.inl rfl))
      · simp [judgeVerdict, status, unmeasured]
      · simp [judgeVerdict, status, unmeasured]
      · simp [judgeVerdict, status, unmeasured]
      · simp [judgeVerdict, data]
    | false =>
      have status := statusOf_of_fresh stale few
      rw [data, Bool.false_and, if_neg Bool.false_ne_true] at status
      cases value : found.actualValue with
      | none =>
        have unmeasured : compliance floats policy found = none := by simp [compliance, data, stale, few, value]
        refine iff_of_false ?_ (by simp)
        intro agrees
        have failed := agrees.failed
        simp [judgeVerdict, status, unmeasured] at failed
      | some actual =>
        have measured : compliance floats policy found =
            some (compare floats actual (policy.targetValue.getD policy.objectivePercent) policy.comparisonOperator) := by
          simp [compliance, data, stale, few, value]
        rw [measured, Option.getD_some] at status
        refine iff_of_true ⟨?_, ?_, ?_, counts, ?_⟩ (by simp)
        · simp only [judgeVerdict, status, measured]
          split_ifs <;> simp_all
        · simp only [judgeVerdict, status, measured]
          split_ifs <;> simp_all
        · simp only [judgeVerdict, status, measured]
          split_ifs <;> simp_all
        · simp [judgeVerdict, data]

/-- Missing data that is left out passes only when nothing else is said of it. -/
theorem agrees_of_excluded (none : found.noData = true) (counts : found.goodCount + found.badCount = found.totalCount)
    (excluded : excludesMissing policy = true) (enough : isInsufficient policy found = false) :
    Agrees policy (judgeVerdict floats policy found) ↔
      isStale floats policy found = false ∧ floats.le floats.zero policy.atRiskBudgetPercent = false ∧
        found.burnAlert ≠ some .page := by
  have passing : compliance floats policy found = some true := by simp [compliance, none, excluded]
  have notUnknown : policy.missingDataPolicy ≠ .unknown := by
    intro unknown
    simp [excludesMissing, unknown] at excluded
  cases stale : isStale floats policy found with
  | true =>
    refine iff_of_false ?_ (by simp)
    intro agrees
    have read := agrees.excluded none excluded
    simp [judgeVerdict, statusOf_of_stale stale] at read
  | false =>
    have status := statusOf_of_fresh stale enough
    simp only [notUnknown, passing, remaining_of_noData none, decide_false, Bool.and_false, Bool.false_eq_true, if_false,
      Option.getD_some, Bool.true_eq_false] at status
    constructor
    · intro agrees
      have read := agrees.excluded none excluded
      simp only [judgeVerdict, status] at read
      split_ifs at read with burning risky
      exact ⟨rfl, Bool.eq_false_iff.mpr risky, burning⟩
    · rintro ⟨-, safe, calm⟩
      rw [if_neg calm, safe, if_neg Bool.false_ne_true] at status
      refine ⟨?_, ?_, ?_, counts, ?_⟩ <;> simp [judgeVerdict, status, passing]

/-- The verdict of findings without data, by what the policy makes of them. -/
theorem agrees_of_missing (none : found.noData = true) (counts : found.goodCount + found.badCount = found.totalCount) :
    Agrees policy (judgeVerdict floats policy found) ↔ VerdictSound floats policy found := by
  unfold VerdictSound
  rw [if_pos none]
  have enough := @isInsufficient_of_noData _ policy _ none
  cases missing : policy.missingDataPolicy with
  | unknown =>
    have unmeasured : compliance floats policy found = Option.none := by
      simp [compliance, none, missing, excludesMissing]
    have status : statusOf floats policy found = .noData ∨ statusOf floats policy found = .stale := by
      cases stale : isStale floats policy found with
      | true => exact Or.inr (statusOf_of_stale stale)
      | false => exact Or.inl (by simp [statusOf_of_fresh stale enough, none, missing])
    refine iff_of_true ⟨?_, ?_, ?_, counts, ?_⟩ trivial
    · rcases status with status | status <;> simp [judgeVerdict, status, unmeasured]
    · rcases status with status | status <;> simp [judgeVerdict, status, unmeasured]
    · rcases status with status | status <;> simp [judgeVerdict, status, unmeasured]
    · simp [excludesMissing, missing]
  | bad =>
    have failing : compliance floats policy found = some false := by
      simp [compliance, none, missing, excludesMissing]
    cases stale : isStale floats policy found with
    | true =>
      refine iff_of_false ?_ (by simp)
      intro agrees
      have failed := agrees.failed
      simp [judgeVerdict, statusOf_of_stale stale, failing] at failed
    | false =>
      have status : statusOf floats policy found = .failed := by
        simp [statusOf_of_fresh stale enough, missing, failing]
      refine iff_of_true ⟨?_, ?_, ?_, counts, ?_⟩ (by simp)
      · simp [judgeVerdict, status, failing]
      · simp [judgeVerdict, status, failing]
      · simp [judgeVerdict, status, failing]
      · simp [excludesMissing, missing]
  | good => exact agrees_of_excluded none counts (by simp [excludesMissing, missing]) enough
  | ignore => exact agrees_of_excluded none counts (by simp [excludesMissing, missing]) enough

/-- The verdict of a builder's findings. -/
theorem agrees_judgeVerdict (counts : found.goodCount + found.badCount = found.totalCount) :
    Agrees policy (judgeVerdict floats policy found) ↔ VerdictSound floats policy found := by
  cases data : found.noData with
  | true => exact agrees_of_missing data counts
  | false =>
    rw [agrees_of_data data counts, VerdictSound, if_neg (by rw [data]; exact Bool.false_ne_true)]

theorem statusOf_ne_notConfigured : statusOf floats policy found ≠ .notConfigured := by
  cases stale : isStale floats policy found with
  | true => simp [statusOf_of_stale stale]
  | false =>
    cases few : isInsufficient policy found with
    | true => simp [statusOf_of_insufficient stale few]
    | false =>
      rw [statusOf_of_fresh stale few]
      split_ifs <;> simp

end Verdicts

/-! ## The builders -/

/-- What a verdict is judged on: a target's samples, its minutes, its backups, or the restore drills. -/
inductive Evidence (F : Type)
  | samples (targetId windowEnd : String) (rows : List MetricRow)
  | minutes (targetId windowEnd : String) (samples : MinuteSamples)
  | backups (targetId : String) (rows : List MetricRow)
  | drills (history : Except String (List (DrillRow F)))

/-- What the builders read beside it. -/
structure Judging (F : Type) where
  floats : Floats F
  upper : String → String
  parseTime : String → Instant
  backupPolicyConfigured : Bool
  evaluateBackupPolicy : String → List MetricRow → List (DatabaseEntry F)
  evaluateDrills : List (DrillRow F) → List DrillVerdict

section Builders

variable {F : Type} (judging : Judging F) (policy : SlaPolicy F)

def judge : Evidence F → SlaPolicyResult F
  | .samples targetId windowEnd rows =>
      buildResult judging.floats judging.upper judging.parseTime policy targetId windowEnd rows
  | .minutes targetId windowEnd samples => minutesResult judging.floats judging.parseTime policy targetId windowEnd samples
  | .backups targetId rows =>
      buildBackupRpoResult judging.floats judging.upper judging.backupPolicyConfigured judging.evaluateBackupPolicy policy
        targetId rows
  | .drills history => restoreDrillResult judging.floats judging.upper judging.evaluateDrills policy history

/-- The policy calls a number of breaches compliant just when there are none. -/
def CountsBreaches (breaches : List String) : Prop :=
  compare judging.floats (judging.floats.ofInt breaches.length) (policy.targetValue.getD judging.floats.zero)
    policy.comparisonOperator = decide (breaches = [])

/-- The evidence a builder comes to one verdict of. -/
def EvidenceSound : Evidence F → Prop
  | .samples targetId windowEnd rows =>
      VerdictSound judging.floats policy
        (sampleFindings judging.floats judging.upper judging.parseTime policy targetId windowEnd rows)
  | .minutes targetId windowEnd samples =>
      VerdictSound judging.floats policy (minuteFindings judging.floats judging.parseTime policy targetId windowEnd samples)
  | .backups targetId rows =>
      judging.backupPolicyConfigured = true →
        if backupRows judging.upper policy rows = [] then keptRows policy rows = []
        else
          databasesOf judging.upper judging.evaluateBackupPolicy policy targetId rows ≠ [] ∧
            CountsBreaches judging policy (backupBreaches judging.floats
              (databasesOf judging.upper judging.evaluateBackupPolicy policy targetId rows))
  | .drills (.error _) | .drills (.ok []) => excludesMissing policy = false
  | .drills (.ok (first :: rest)) =>
      CountsBreaches judging policy
        (drillBreaches judging.floats judging.upper judging.evaluateDrills policy (first :: rest))

variable {judging policy}

theorem counts_sampleFindings (floats : Floats F) (upper : String → String) (parseTime : String → Instant)
    (targetId windowEnd : String) (rows : List MetricRow) :
    (sampleFindings floats upper parseTime policy targetId windowEnd rows).goodCount +
        (sampleFindings floats upper parseTime policy targetId windowEnd rows).badCount =
      (sampleFindings floats upper parseTime policy targetId windowEnd rows).totalCount := by
  unfold sampleFindings
  dsimp only
  rw [← List.countP_eq_length_filter]
  have all := List.length_eq_countP_add_countP (isGoodSample upper policy)
    (l := if policy.policyModel = .currentState ∨ policy.policyModel = .findingInventory then
      latestCycle ((rows.filter fun row => !isMaintenanceSample row.collectedAt policy.maintenanceWindows).filter
        fun row => !isCollectionFailure upper row)
      else (rows.filter fun row => !isMaintenanceSample row.collectedAt policy.maintenanceWindows).filter
        fun row => !isCollectionFailure upper row)
  rw [all]
  push_cast
  simp

theorem counts_minuteFindings (floats : Floats F) (parseTime : String → Instant) (targetId windowEnd : String)
    (samples : MinuteSamples) :
    (minuteFindings floats parseTime policy targetId windowEnd samples).goodCount +
        (minuteFindings floats parseTime policy targetId windowEnd samples).badCount =
      (minuteFindings floats parseTime policy targetId windowEnd samples).totalCount := by
  unfold minuteFindings
  dsimp only
  omega

variable {targetId : String} {status : Status} {totalCount : Nat} {quality : Quality} {reason : String}

theorem agrees_unmeasured {compliant : Option Bool} :
    Agrees policy (unmeasured judging.floats policy targetId status totalCount true compliant quality reason) ↔
      (status = .passed ∨ status = .atRisk ∨ status = .burning ↔ compliant = some true) ∧
        (status = .failed ↔ compliant = some false) ∧
        (status = .noData ∨ status = .stale ∨ status = .insufficientData ↔ compliant = none) ∧
        totalCount = 0 ∧ (excludesMissing policy = true → status = .passed) := by
  constructor
  · rintro ⟨met, failed, unknown, counts, excluded⟩
    refine ⟨met, failed, unknown, ?_, excluded rfl⟩
    simpa [unmeasured] using counts.symm
  · rintro ⟨met, failed, unknown, counts, excluded⟩
    exact ⟨met, failed, unknown, by simp [unmeasured, counts], fun _ => excluded⟩

/-- A builder that counts breaches agrees with itself when its status and the policy's comparison do. -/
theorem agrees_counted {goodCount badCount : Nat} {breaches : List String} {failuresByStatus : List (String × Nat)}
    {affectedObjects : Nat} (counts : goodCount + badCount = totalCount)
    (graded : if breaches = [] then status = .passed ∨ status = .atRisk else status = .failed) :
    Agrees policy (counted judging.floats policy targetId status totalCount goodCount badCount (decide (breaches ≠ []))
        failuresByStatus affectedObjects breaches.length quality reason) ↔ CountsBreaches judging policy breaches := by
  unfold CountsBreaches
  have total : (goodCount : Int) + badCount = totalCount := by exact_mod_cast counts
  constructor
  · intro agrees
    by_cases clean : breaches = []
    · rw [if_pos clean] at graded
      have met := agrees.met.mp (graded.imp_right Or.inl)
      simpa [counted, clean] using met
    · rw [if_neg clean] at graded
      have failed := agrees.failed.mp graded
      simpa [counted, clean] using failed
  · intro same
    have verdict : (counted judging.floats policy targetId status totalCount goodCount badCount (decide (breaches ≠ []))
        failuresByStatus affectedObjects breaches.length quality reason).compliant = some (decide (breaches = [])) :=
      congrArg some same
    have read : (counted judging.floats policy targetId status totalCount goodCount badCount (decide (breaches ≠ []))
        failuresByStatus affectedObjects breaches.length quality reason).status = status := rfl
    refine ⟨?_, ?_, ?_, total, fun missing => nomatch missing⟩
    · rw [verdict, read]
      by_cases clean : breaches = []
      · rw [if_pos clean] at graded
        rcases graded with rfl | rfl <;> simp [clean]
      · rw [if_neg clean] at graded
        simp [clean, graded]
    · rw [verdict, read]
      by_cases clean : breaches = []
      · rw [if_pos clean] at graded
        rcases graded with rfl | rfl <;> simp [clean]
      · rw [if_neg clean] at graded
        simp [clean, graded]
    · rw [verdict, read]
      by_cases clean : breaches = []
      · rw [if_pos clean] at graded
        rcases graded with rfl | rfl <;> simp
      · rw [if_neg clean] at graded
        simp [graded]

theorem databasesWith_subset (holds : BackupState → Bool) (databases : List (DatabaseEntry F)) :
    databasesWith holds databases ⊆ databasesWith (fun _ => true) databases := by
  intro name member
  simp only [databasesWith, List.mem_toFinset, List.mem_map, List.mem_filter, List.any_eq_true, Bool.and_eq_true] at member ⊢
  obtain ⟨entry, ⟨inside, slot, listed, required, _⟩, same⟩ := member
  exact ⟨entry, ⟨inside, slot, listed, required, trivial⟩, same⟩

theorem agrees_missingBackups (targetId : String) (rows : List MetricRow) :
    Agrees policy (missingBackups judging.floats judging.upper policy targetId rows) ↔ keptRows policy rows = [] := by
  unfold missingBackups
  dsimp only
  rw [agrees_unmeasured, List.length_eq_zero_iff]
  unfold missingVerdict
  by_cases excluded : excludesMissing policy = true
  · simp [excluded]
  · by_cases bad : policy.missingDataPolicy = .bad
    · simp [excluded, bad]
    · simp [excluded, bad]

theorem agrees_judgedBackups (targetId : String) (rows : List MetricRow) (databases : List (DatabaseEntry F)) :
    Agrees policy (judgedBackups judging.floats judging.upper policy targetId rows databases) ↔
      CountsBreaches judging policy (backupBreaches judging.floats databases) := by
  apply agrees_counted
  · exact Finset.card_sdiff_add_card_eq_card (databasesWith_subset _ _)
  · by_cases clean : backupBreaches judging.floats databases = []
    · simp only [clean, ne_eq, not_true_eq_false, if_false, if_true]
      split_ifs
      · exact Or.inl rfl
      · exact Or.inr rfl
    · simp [clean]

theorem judgedBackups_status_ne (targetId : String) (rows : List MetricRow) (databases : List (DatabaseEntry F)) :
    (judgedBackups judging.floats judging.upper policy targetId rows databases).status ≠ .notConfigured := by
  unfold judgedBackups counted
  dsimp only
  split_ifs <;> simp

theorem missingBackups_status_ne (targetId : String) (rows : List MetricRow) :
    (missingBackups judging.floats judging.upper policy targetId rows).status ≠ .notConfigured := by
  unfold missingBackups unmeasured
  dsimp only
  split <;> simp

theorem agrees_backups (targetId : String) (rows : List MetricRow) :
    (judge judging policy (.backups targetId rows)).status = .notConfigured ∨
        Agrees policy (judge judging policy (.backups targetId rows)) ↔
      EvidenceSound judging policy (.backups targetId rows) := by
  change (buildBackupRpoResult judging.floats judging.upper judging.backupPolicyConfigured judging.evaluateBackupPolicy
    policy targetId rows).status = .notConfigured ∨ Agrees policy (buildBackupRpoResult judging.floats judging.upper
      judging.backupPolicyConfigured judging.evaluateBackupPolicy policy targetId rows) ↔ _
  unfold EvidenceSound buildBackupRpoResult
  dsimp only
  cases configured : judging.backupPolicyConfigured with
  | false => exact iff_of_true (Or.inl rfl) fun impossible => nomatch impossible
  | true =>
    rw [if_neg Bool.noConfusion]
    refine Iff.trans ?_ (imp_iff_right rfl).symm
    by_cases silent : backupRows judging.upper policy rows = []
    · rw [if_pos silent, if_pos silent, or_iff_right (missingBackups_status_ne targetId rows)]
      exact agrees_missingBackups targetId rows
    · rw [if_neg silent, if_neg silent]
      by_cases unseen : databasesOf judging.upper judging.evaluateBackupPolicy policy targetId rows = []
      · rw [if_pos unseen]
        refine iff_of_false ?_ fun sound => sound.1 unseen
        rw [agrees_unmeasured]
        simp [unmeasured, silent]
      · rw [if_neg unseen, or_iff_right (judgedBackups_status_ne targetId rows _), agrees_judgedBackups, and_iff_right unseen]

theorem agrees_drills (history : Except String (List (DrillRow F))) :
    (judge judging policy (.drills history)).status = .notConfigured ∨ Agrees policy (judge judging policy (.drills history)) ↔
      EvidenceSound judging policy (.drills history) := by
  have silent : ∀ reason, ((unmeasured judging.floats policy aggregateTarget .noData 0 true none .noData reason).status =
      .notConfigured ∨ Agrees policy (unmeasured judging.floats policy aggregateTarget .noData 0 true none .noData reason)) ↔
      excludesMissing policy = false := by
    intro reason
    rw [agrees_unmeasured]
    simp [unmeasured]
  match history with
  | .error unreadable => exact silent _
  | .ok [] => exact silent _
  | .ok (first :: rest) =>
    change (restoreDrillResult judging.floats judging.upper judging.evaluateDrills policy (.ok (first :: rest))).status =
      .notConfigured ∨ Agrees policy (restoreDrillResult judging.floats judging.upper judging.evaluateDrills policy
        (.ok (first :: rest))) ↔ CountsBreaches judging policy (drillBreaches judging.floats judging.upper
          judging.evaluateDrills policy (first :: rest))
    unfold restoreDrillResult
    dsimp only
    rw [or_iff_right, agrees_counted]
    · exact Nat.sub_add_cancel (List.length_filterMap_le _ _)
    · by_cases clean : drillBreaches judging.floats judging.upper judging.evaluateDrills policy (first :: rest) = []
      · simp [clean]
      · simp [clean]
    · unfold counted
      dsimp only
      split_ifs <;> simp

/-- A result tells one verdict just when its evidence is sound. -/
theorem one_verdict_iff (judging : Judging F) (policy : SlaPolicy F) (evidence : Evidence F) :
    (judge judging policy evidence).status = .notConfigured ∨ Agrees policy (judge judging policy evidence) ↔
      EvidenceSound judging policy evidence := by
  cases evidence with
  | samples targetId windowEnd rows =>
      have agrees : Agrees policy (judge judging policy (.samples targetId windowEnd rows)) ↔
          EvidenceSound judging policy (.samples targetId windowEnd rows) :=
        agrees_judgeVerdict (counts_sampleFindings judging.floats judging.upper judging.parseTime targetId windowEnd rows)
      have judged : statusOf judging.floats policy (sampleFindings judging.floats judging.upper judging.parseTime policy
          targetId windowEnd rows) ≠ .notConfigured := statusOf_ne_notConfigured
      exact (or_iff_right judged).trans agrees
  | minutes targetId windowEnd samples =>
      have agrees : Agrees policy (judge judging policy (.minutes targetId windowEnd samples)) ↔
          EvidenceSound judging policy (.minutes targetId windowEnd samples) :=
        agrees_judgeVerdict (counts_minuteFindings judging.floats judging.parseTime targetId windowEnd samples)
      have judged : (judge judging policy (.minutes targetId windowEnd samples)).status ≠ .notConfigured :=
        statusOf_ne_notConfigured
      rwa [or_iff_right judged]
  | backups targetId rows => exact agrees_backups targetId rows
  | drills history => exact agrees_drills history

end Builders

/-! ## A target without samples -/

def rationals : Floats ℚ where
  ofInt value := value
  add := (· + ·)
  sub := (· - ·)
  mul := (· * ·)
  div := (· / ·)
  lt first second := decide (first < second)
  le first second := decide (first ≤ second)
  eq first second := decide (first = second)
  round value digits := ⌊value * 10 ^ digits + 1 / 2⌋ / 10 ^ digits
  floor value := ⌊value⌋
  ceil value := ⌈value⌉
  trunc value := value.num.tdiv value.den
  nearest value := ⌊value + 1 / 2⌋
  sum := List.sum
  isFinite _ := true
  ofText text := text.toInt?.map fun value => value

def sampleJudging : Judging ℚ := ⟨rationals, id, fun _ => 0, true, fun _ _ => [], fun _ => []⟩

/-- Availability over a day, with the defaults but for missing data, which is ignored. -/
def ignoringPolicy : SlaPolicy ℚ where
  policyId := "SALES_AVAILABILITY"
  metricCodes := ["INSTANCE_STATUS"]
  objectivePercent := 99
  windowHours := 24
  goodStatuses := ["OK", "LOGGING"]
  atRiskBudgetPercent := 25
  aggregation := .successRatio
  policyModel := .timeSlo
  comparisonOperator := .ge
  targetValue := none
  minimumSampleCount := 1
  expectedCollectionIntervalSeconds := none
  freshnessThresholdSeconds := none
  missingDataPolicy := .ignore
  maintenanceWindows := []
  percentile := 95
  rtoTargetSeconds := none
  burnRateAlerts := []

/-- Missing data that the policy ignores reads as at risk: no budget is left of a window without samples. -/
theorem ignored_absence_is_at_risk :
    (judge sampleJudging ignoringPolicy (.samples "SALES" "2026-10-01T00:00:00Z" [])).status = .atRisk ∧
      ¬((judge sampleJudging ignoringPolicy (.samples "SALES" "2026-10-01T00:00:00Z" [])).status = .notConfigured ∨
        Agrees ignoringPolicy (judge sampleJudging ignoringPolicy (.samples "SALES" "2026-10-01T00:00:00Z" []))) := by
  have status : (judge sampleJudging ignoringPolicy (.samples "SALES" "2026-10-01T00:00:00Z" [])).status = .atRisk := by
    decide +kernel
  refine ⟨status, ?_⟩
  rw [status]
  rintro (impossible | agrees)
  · cases impossible
  · have passed := agrees.excluded rfl rfl
    rw [status] at passed
    cases passed

end DbaBrain.Sla.OneVerdict
