import DbaBrain.Sla.NamedWindows
import DbaBrain.Sla.OneVerdict

/-!
# Worse samples

A history in which measured good samples have become measured bad ones is judged no
better: what is measured of it falls, the arithmetic up to the verdict keeps the
order, and so do the budget, the alerts and the burn rates.
-/

namespace DbaBrain.Sla.WorseSamples

open DbaBrain.Foundation.Text DbaBrain.Db.MetricStore
open DbaBrain.Sla.Compliance DbaBrain.Sla.OneVerdict DbaBrain.Sla.NamedWindows
open DbaBrain.Sla.Months (Sampling asksNothing inScope isCounted isGood minute minutesOf mem_minutesOf)

/-! ## The arithmetic of doubles -/

/-- What IEEE arithmetic and `round` promise: comparisons that hold are between numbers and go together, rounded
operations keep the order, and none of those on counts leaves the finite numbers. -/
structure Ieee {F : Type} (floats : Floats F) : Prop where
  le_trans : ∀ a b c, floats.le a b = true → floats.le b c = true → floats.le a c = true
  lt_of_lt_of_le : ∀ a b c, floats.lt a b = true → floats.le b c = true → floats.lt a c = true
  lt_of_le_of_lt : ∀ a b c, floats.le a b = true → floats.lt b c = true → floats.lt a c = true
  le_of_lt : ∀ a b, floats.lt a b = true → floats.le a b = true
  not_lt_of_le : ∀ a b, floats.le a b = true → floats.lt b a = false
  le_refl : ∀ a, floats.isFinite a = true → floats.le a a = true
  finite_zero : floats.isFinite floats.zero = true
  finite_hundred : floats.isFinite floats.hundred = true
  zero_le_hundred : floats.le floats.zero floats.hundred = true
  round_mono : ∀ a b digits, floats.le a b = true → floats.le (floats.round a digits) (floats.round b digits) = true
  finite_round : ∀ a digits, floats.isFinite a = true → floats.isFinite (floats.round a digits) = true
  sub_hundred_mono : ∀ a b, floats.le a b = true →
    floats.le (floats.sub floats.hundred b) (floats.sub floats.hundred a) = true
  finite_sub_hundred : ∀ a, floats.isFinite a = true → floats.isFinite (floats.sub floats.hundred a) = true
  mul_hundred_mono : ∀ a b, floats.le a b = true →
    floats.le (floats.mul a floats.hundred) (floats.mul b floats.hundred) = true
  div_mono : ∀ a b c, floats.isFinite a = true → floats.isFinite b = true → floats.le a b = true →
    floats.lt floats.zero c = true → floats.le (floats.div a c) (floats.div b c) = true
  share_mono : ∀ (a b : Int) (whole : Nat), 0 ≤ a → a ≤ b → b ≤ whole → 0 < whole →
    floats.le (floats.div (floats.ofInt a) (floats.ofInt whole))
      (floats.div (floats.ofInt b) (floats.ofInt whole)) = true
  finite_share : ∀ (a : Int) (whole : Nat), 0 ≤ a → a ≤ whole → 0 < whole →
    floats.isFinite (floats.div (floats.ofInt a) (floats.ofInt whole)) = true
  finite_percent : ∀ part whole : Nat, part ≤ whole → 0 < whole → floats.isFinite (floats.percent part whole) = true
  -- what is neither above zero nor not above it is no number, and neither is what is divided by it
  not_number : ∀ c, floats.le c floats.zero = false → floats.lt floats.zero c = false → ∀ a digits b,
    floats.le b (floats.round (floats.div a c) digits) = false ∧
      floats.lt (floats.round (floats.div a c) digits) b = false

/-! ## Verdicts in order -/

/-- The verdicts that say how a service is, the worst first. -/
def rank : Status → Option Nat
  | .failed => some 0
  | .burning => some 1
  | .atRisk => some 2
  | .passed => some 3
  | .noData | .stale | .insufficientData | .notConfigured => none

/-- A verdict is the same, or a worse one of the order. -/
def NoBetter (old new : Status) : Prop :=
  new = old ∨ ∃ low high, rank new = some low ∧ rank old = some high ∧ low < high

/-- A burn rate is there as before, and not below. -/
def NotLower {F : Type} (floats : Floats F) : Option F → Option F → Prop
  | none, none => True
  | some old, some new => floats.lt new old = false
  | _, _ => False

/-- What two findings have to do with each other where the second is of worse samples. -/
structure WorseFindings {F : Type} (floats : Floats F) (old new : Findings F) : Prop where
  noData : new.noData = old.noData
  freshness : new.freshness = old.freshness
  samples : new.samplesForSufficiency = old.samplesForSufficiency
  value : (old.actualValue = none ∧ new.actualValue = none) ∨ ∃ before after, old.actualValue = some before ∧
    new.actualValue = some after ∧ floats.le after before = true
  percent : floats.le new.actualPercent old.actualPercent = true
  finite_old : floats.isFinite old.actualPercent = true
  finite_new : floats.isFinite new.actualPercent = true
  alert : old.burnAlert = some .page → new.burnAlert = some .page

section Judging

variable {F : Type} {floats : Floats F} (ieee : Ieee floats) {policy : SlaPolicy F} {old new : Findings F}

include ieee

/-- The first of zero and a value, and the last of a hundred and that, keep the order. -/
theorem clamp_mono {a b : F} (le : floats.le a b = true) :
    floats.le (floats.min floats.hundred (floats.max floats.zero a))
      (floats.min floats.hundred (floats.max floats.zero b)) = true := by
  have lower : floats.le (floats.max floats.zero a) (floats.max floats.zero b) = true := by
    unfold Floats.max
    by_cases above : floats.lt floats.zero a = true
    · rw [if_pos above, if_pos (ieee.lt_of_lt_of_le _ _ _ above le)]
      exact le
    · rw [if_neg above]
      split
      · next above' => exact ieee.le_of_lt _ _ above'
      · exact ieee.le_refl _ ieee.finite_zero
  unfold Floats.min
  by_cases below : floats.lt (floats.max floats.zero b) floats.hundred = true
  · rw [if_pos below, if_pos (ieee.lt_of_le_of_lt _ _ _ lower below)]
    exact lower
  · rw [if_neg below]
    split
    · next below' => exact ieee.le_of_lt _ _ below'
    · exact ieee.le_refl _ ieee.finite_hundred

omit ieee in
/-- The budget is the policy's, whatever was found. -/
theorem errorBudget_eq (new old : Findings F) :
    (budgetOf floats policy new).errorBudgetPercent = (budgetOf floats policy old).errorBudgetPercent := by
  have budgetIs (found : Findings F) : (budgetOf floats policy found).errorBudgetPercent =
      if (policy.aggregation = .successRatio || policy.aggregation = .minutes) && policy.policyModel = .timeSlo then
        floats.round (floats.sub floats.hundred policy.objectivePercent) 4
      else floats.zero := by
    unfold budgetOf
    dsimp only
    by_cases none : found.noData = true
    · simp only [none, if_true]
    · simp only [none, if_false, Bool.false_eq_true]
  rw [budgetIs, budgetIs]

variable (policy) in
theorem badPercent_mono (worse : WorseFindings floats old new) :
    floats.le (budgetOf floats policy old).badPercent (budgetOf floats policy new).badPercent = true ∧
      floats.isFinite (budgetOf floats policy old).badPercent = true ∧
        floats.isFinite (budgetOf floats policy new).badPercent = true := by
  have badOf (found : Findings F) : (budgetOf floats policy found).badPercent =
      if (policy.aggregation = .successRatio || policy.aggregation = .minutes) && policy.policyModel = .timeSlo then
        floats.round (floats.sub floats.hundred found.actualPercent) 4
      else floats.zero := by
    unfold budgetOf
    dsimp only
    by_cases none : found.noData = true
    · simp only [none, if_true]
    · simp only [none, if_false, Bool.false_eq_true]
  rw [badOf, badOf]
  split
  · refine ⟨ieee.round_mono _ _ 4 (ieee.sub_hundred_mono _ _ worse.percent), ?_, ?_⟩
    · exact ieee.finite_round _ 4 (ieee.finite_sub_hundred _ worse.finite_old)
    · exact ieee.finite_round _ 4 (ieee.finite_sub_hundred _ worse.finite_new)
  · exact ⟨ieee.le_refl _ ieee.finite_zero, ieee.finite_zero, ieee.finite_zero⟩

/-- How much is consumed of a budget, before it is cut to a percentage. -/
def rawConsumed (floats : Floats F) (errorBudget bad : F) : F :=
  if floats.lt floats.zero errorBudget then floats.mul (floats.div bad errorBudget) floats.hundred
  else if floats.le bad floats.zero then floats.zero
  else floats.hundred

theorem rawConsumed_mono {errorBudget before after : F} (le : floats.le before after = true)
    (finite_before : floats.isFinite before = true) (finite_after : floats.isFinite after = true) :
    floats.le (rawConsumed floats errorBudget before) (rawConsumed floats errorBudget after) = true := by
  unfold rawConsumed
  split
  · next budget => exact ieee.mul_hundred_mono _ _ (ieee.div_mono _ _ _ finite_before finite_after le budget)
  · by_cases none_after : floats.le after floats.zero = true
    · rw [if_pos none_after, if_pos (ieee.le_trans _ _ _ le none_after)]
      exact ieee.le_refl _ ieee.finite_zero
    · rw [if_neg none_after]
      split
      · exact ieee.zero_le_hundred
      · exact ieee.le_refl _ ieee.finite_hundred

theorem remaining_mono (worse : WorseFindings floats old new) :
    floats.le (budgetOf floats policy new).remainingPercent (budgetOf floats policy old).remainingPercent = true := by
  obtain ⟨le, finite_old, finite_new⟩ := badPercent_mono ieee policy worse
  have remainingOf (found : Findings F) : (budgetOf floats policy found).remainingPercent =
      if found.noData then floats.zero
      else
        floats.round (floats.sub floats.hundred (floats.round (floats.min floats.hundred (floats.max floats.zero
          (rawConsumed floats (budgetOf floats policy found).errorBudgetPercent
            (budgetOf floats policy found).badPercent))) 2)) 2 := by
    unfold budgetOf rawConsumed
    dsimp only
    by_cases none : found.noData = true
    · simp only [none, if_true]
    · simp only [none, if_false, Bool.false_eq_true]
  rw [remainingOf, remainingOf, worse.noData, errorBudget_eq new old]
  split
  · exact ieee.le_refl _ ieee.finite_zero
  · refine ieee.round_mono _ _ 2 (ieee.sub_hundred_mono _ _ (ieee.round_mono _ _ 2 (clamp_mono ieee ?_)))
    exact rawConsumed_mono ieee le finite_old finite_new

omit ieee in
theorem isStale_eq (worse : WorseFindings floats old new) : isStale floats policy new = isStale floats policy old := by
  unfold isStale
  rw [worse.freshness]

omit ieee in
theorem isInsufficient_eq (worse : WorseFindings floats old new) :
    isInsufficient policy new = isInsufficient policy old := by
  unfold isInsufficient
  rw [worse.noData, worse.samples]

/-- Worse findings meet an objective only where the others did. -/
theorem compliance_mono (ge : policy.comparisonOperator = .ge) (worse : WorseFindings floats old new)
    (meets : (compliance floats policy new).getD false = true) : (compliance floats policy old).getD false = true := by
  unfold compliance at meets ⊢
  dsimp only at meets ⊢
  rw [worse.noData, isStale_eq worse, isInsufficient_eq worse] at meets
  split_ifs at meets ⊢ with excluded counted_bad unjudged
  · rfl
  · exact absurd meets (by simp)
  · exact absurd meets (by simp)
  · rcases worse.value with ⟨none_old, none_new⟩ | ⟨before, after, value_old, value_new, le⟩
    · rw [none_new] at meets
      exact absurd meets (by simp)
    · rw [value_new] at meets
      rw [value_old]
      simp only [Option.map_some, Option.getD_some, ge, Compliance.compare] at meets ⊢
      exact ieee.le_trans _ _ _ meets le

omit ieee in
theorem noBetter_refl (status : Status) : NoBetter status status := Or.inl rfl

omit ieee in
/-- A rank tells the verdict. -/
theorem rank_inj {before after : Status} {place : Nat} (first : rank before = some place)
    (second : rank after = some place) : before = after := by
  cases before <;> cases after <;> simp [rank] at first second ⊢ <;> omega

omit ieee in
theorem noBetter_of_rank {before after : Status} {low high : Nat} (rank_after : rank after = some low)
    (rank_before : rank before = some high) (below : low ≤ high) : NoBetter before after := by
  rcases below.lt_or_eq with less | rfl
  · exact Or.inr ⟨low, high, rank_after, rank_before, less⟩
  · exact Or.inl (rank_inj rank_after rank_before)

theorem statusOf_no_better (ge : policy.comparisonOperator = .ge) (worse : WorseFindings floats old new) :
    NoBetter (statusOf floats policy old) (statusOf floats policy new) := by
  have stale_same : isStale floats policy new = isStale floats policy old := isStale_eq worse
  have few_same : isInsufficient policy new = isInsufficient policy old := isInsufficient_eq worse
  cases stale : isStale floats policy old with
  | true =>
    rw [statusOf_of_stale stale, statusOf_of_stale (stale_same.trans stale)]
    exact noBetter_refl _
  | false =>
    cases few : isInsufficient policy old with
    | true =>
      rw [statusOf_of_insufficient stale few,
        statusOf_of_insufficient (stale_same.trans stale) (few_same.trans few)]
      exact noBetter_refl _
    | false =>
      rw [statusOf_of_fresh stale few, statusOf_of_fresh (stale_same.trans stale) (few_same.trans few),
        worse.noData]
      by_cases silent : (old.noData && decide (policy.missingDataPolicy = .unknown)) = true
      · rw [if_pos silent, if_pos silent]
        exact noBetter_refl _
      · rw [if_neg silent, if_neg silent]
        by_cases unmet : (compliance floats policy new).getD false = false
        · rw [if_pos unmet]
          split_ifs <;> exact noBetter_of_rank rfl rfl (by decide)
        · have met : (compliance floats policy old).getD false = true :=
            compliance_mono ieee ge worse (Bool.eq_true_of_not_eq_false unmet)
          rw [if_neg unmet, if_neg (by rw [met]; exact Bool.true_eq_false_eq_False)]
          by_cases pages : new.burnAlert = some .page
          · rw [if_pos pages]
            split_ifs <;> exact noBetter_of_rank rfl rfl (by decide)
          · rw [if_neg pages, if_neg fun paged => pages (worse.alert paged)]
            by_cases risky :
                floats.le (budgetOf floats policy old).remainingPercent policy.atRiskBudgetPercent = true
            · rw [if_pos risky, if_pos (ieee.le_trans _ _ _ (remaining_mono ieee worse) risky)]
              exact noBetter_refl _
            · rw [if_neg risky]
              split_ifs <;> exact noBetter_of_rank rfl rfl (by decide)

/-! ## Burn rates -/

/-- A share of a budget rises with what is bad, or the budget is no number and neither is the share. -/
theorem share_not_lower {budget before after : F} (some_budget : floats.le budget floats.zero = false)
    (le : floats.le before after = true) (finite_before : floats.isFinite before = true)
    (finite_after : floats.isFinite after = true) (digits : Nat) (bound : F) :
    (floats.le bound (floats.round (floats.div before budget) digits) = true →
        floats.le bound (floats.round (floats.div after budget) digits) = true) ∧
      floats.lt (floats.round (floats.div after budget) digits) (floats.round (floats.div before budget) digits) =
        false := by
  by_cases above : floats.lt floats.zero budget = true
  · have rises : floats.le (floats.round (floats.div before budget) digits)
        (floats.round (floats.div after budget) digits) = true :=
      ieee.round_mono _ _ digits (ieee.div_mono _ _ _ finite_before finite_after le above)
    exact ⟨fun reached => ieee.le_trans _ _ _ reached rises, ieee.not_lt_of_le _ _ rises⟩
  · have no_number := ieee.not_number budget some_budget (Bool.eq_false_of_not_eq_true above)
    refine ⟨fun reached => ?_, (no_number _ digits _).2⟩
    rw [(no_number _ digits _).1] at reached
    exact absurd reached Bool.false_ne_true

/-- The burn rate of a result is not below that of a better one. -/
theorem burnRate_not_lower (worse : WorseFindings floats old new) :
    NotLower floats (judgeVerdict floats policy old).burnRate (judgeVerdict floats policy new).burnRate := by
  obtain ⟨le, finite_old, finite_new⟩ := badPercent_mono ieee policy worse
  simp only [judgeVerdict, worse.noData, errorBudget_eq new old]
  split
  · next budgeted =>
      exact ieee.not_lt_of_le _ _ (ieee.round_mono _ _ 4 (ieee.div_mono _ _ _ finite_old finite_new le budgeted.1))
  · trivial

end Judging

/-! ## Histories -/

/-- A measured good sample, and a measured bad one at the same time in its place. -/
structure TurnsBad (measured good : MetricRow → Bool) (old new : MetricRow) : Prop where
  was_measured : measured old = true
  was_good : good old = true
  measured : measured new = true
  bad : good new = false
  targetId : new.targetId = old.targetId
  serverId : new.serverId = old.serverId
  dbType : new.dbType = old.dbType
  metricCode : new.metricCode = old.metricCode
  collectedAt : new.collectedAt = old.collectedAt

/-- A history in which any number of samples have turned bad. -/
def Worsened (measured good : MetricRow → Bool) : List MetricRow → List MetricRow → Prop :=
  List.Forall₂ fun old new => new = old ∨ TurnsBad measured good old new

section Histories

variable {measured good : MetricRow → Bool} {old new : List MetricRow}

/-- What is read of a sample but its goodness is the same after the turn. -/
theorem worsened_filter (keep : MetricRow → Bool) (same : ∀ before after, TurnsBad measured good before after →
    keep after = keep before) (worse : Worsened measured good old new) :
    Worsened measured good (old.filter keep) (new.filter keep) := by
  refine List.rel_filter (fun before after turned => ?_) worse
  rcases turned with rfl | turned
  · exact Iff.rfl
  · change keep before = true ↔ keep after = true
    rw [same before after turned]

theorem worsened_map {β : Type} (read : MetricRow → β) (same : ∀ before after, TurnsBad measured good before after →
    read after = read before) (worse : Worsened measured good old new) : new.map read = old.map read := by
  induction worse with
  | nil => rfl
  | cons turned rest ih =>
    rw [List.map_cons, List.map_cons, ih]
    rcases turned with rfl | turned
    · rfl
    · rw [same _ _ turned]

theorem worsened_countP_le (worse : Worsened measured good old new) : new.countP good ≤ old.countP good := by
  induction worse with
  | nil => exact le_rfl
  | cons turned rest ih =>
    rw [List.countP_cons, List.countP_cons]
    rcases turned with rfl | turned
    · exact Nat.add_le_add_right ih _
    · rw [if_neg (by simp [turned.bad])]
      exact ih.trans (Nat.le_add_right _ _)

/-- Each good sample of the worse history was one of the other. -/
theorem good_of_worsened (worse : Worsened measured good old new) : ∀ row ∈ new, good row = true → row ∈ old := by
  induction worse with
  | nil => exact fun row member => absurd member List.not_mem_nil
  | cons turned rest ih =>
    intro row member is_good
    rcases List.mem_cons.mp member with rfl | later
    · rcases turned with rfl | turned
      · exact List.mem_cons_self
      · exact absurd (turned.bad.symm.trans is_good) Bool.false_ne_true
    · exact List.mem_cons_of_mem _ (ih row later is_good)

theorem newestOf_eq (worse : Worsened measured good old new) (metricCode : String) :
    newestOf new metricCode = newestOf old metricCode := by
  unfold newestOf
  generalize (none : Option String) = newest
  induction worse generalizing newest with
  | nil => rfl
  | cons turned rest ih =>
    rw [List.foldl_cons, List.foldl_cons]
    rcases turned with rfl | turned
    · exact ih _
    · rw [turned.metricCode, turned.collectedAt]
      exact ih _

theorem latestCycle_worsened (worse : Worsened measured good old new) :
    Worsened measured good (latestCycle old) (latestCycle new) := by
  unfold latestCycle
  simp only [newestOf_eq worse]
  exact worsened_filter _ (fun before after turned => by rw [turned.metricCode, turned.collectedAt]) worse

end Histories

/-! ## Samples -/

section Samples

variable {F : Type} {floats : Floats F} (ieee : Ieee floats) {policy : SlaPolicy F} {upper : String → String}
  {parseTime : String → Lib.Coerce.Instant} {targetId windowEnd : String} {old new : List MetricRow}

include ieee

/-- A percentage of fewer is not above one of more, and both are finite. -/
theorem percent_mono {fewer more whole : Nat} (le : fewer ≤ more) (part : more ≤ whole) (some_whole : 0 < whole) :
    floats.le (floats.percent fewer whole) (floats.percent more whole) = true := by
  refine ieee.mul_hundred_mono _ _ (ieee.share_mono _ _ whole (Int.natCast_nonneg _) ?_ ?_ some_whole)
  · exact_mod_cast le
  · exact_mod_cast part

/-- The findings of a value that falls, the rest of what is judged being the same. -/
theorem worseFindings_of_value {before after : Findings F} (noData : after.noData = before.noData)
    (freshness : after.freshness = before.freshness)
    (samples : after.samplesForSufficiency = before.samplesForSufficiency)
    (value : (before.actualValue = none ∧ after.actualValue = none) ∨ ∃ high low, before.actualValue = some high ∧
      after.actualValue = some low ∧ floats.le low high = true ∧ floats.isFinite high = true ∧
        floats.isFinite low = true)
    (percent : ∀ found ∈ [before, after], found.actualPercent =
      (found.actualValue.map fun value => floats.round value 4).getD floats.zero)
    (alert : before.burnAlert = some .page → after.burnAlert = some .page) : WorseFindings floats before after := by
  have percent_before := percent before (by simp)
  have percent_after := percent after (by simp)
  rcases value with ⟨none_before, none_after⟩ | ⟨high, low, value_before, value_after, le, finite_high, finite_low⟩
  · rw [none_before] at percent_before
    rw [none_after] at percent_after
    refine ⟨noData, freshness, samples, Or.inl ⟨none_before, none_after⟩, ?_, ?_, ?_, alert⟩
    · rw [percent_before, percent_after]
      exact ieee.le_refl _ ieee.finite_zero
    · rw [percent_before]
      exact ieee.finite_zero
    · rw [percent_after]
      exact ieee.finite_zero
  · rw [value_before] at percent_before
    rw [value_after] at percent_after
    refine ⟨noData, freshness, samples, Or.inr ⟨high, low, value_before, value_after, le⟩, ?_, ?_, ?_, alert⟩
    · rw [percent_before, percent_after]
      exact ieee.round_mono _ _ 4 le
    · rw [percent_before]
      exact ieee.finite_round _ 4 finite_high
    · rw [percent_after]
      exact ieee.finite_round _ 4 finite_low

omit ieee in
theorem measuredRows_worse
    (worse : Worsened (fun row => !isCollectionFailure upper row) (isGoodSample upper policy) old new) :
    Worsened (fun row => !isCollectionFailure upper row) (isGoodSample upper policy)
      ((old.filter fun row => !isMaintenanceSample row.collectedAt policy.maintenanceWindows).filter
        fun row => !isCollectionFailure upper row)
      ((new.filter fun row => !isMaintenanceSample row.collectedAt policy.maintenanceWindows).filter
        fun row => !isCollectionFailure upper row) := by
  refine worsened_filter _ (fun before after turned => ?_) (worsened_filter _ (fun before after turned => ?_) worse)
  · exact turned.measured.trans turned.was_measured.symm
  · rw [turned.collectedAt]

theorem aggregateValue_worse (ratio : policy.aggregation = .successRatio)
    (worse : Worsened (fun row => !isCollectionFailure upper row) (isGoodSample upper policy) old new) :
    (aggregateValue floats policy old (old.countP (isGoodSample upper policy)) = none ∧
        aggregateValue floats policy new (new.countP (isGoodSample upper policy)) = none) ∨
      ∃ high low, aggregateValue floats policy old (old.countP (isGoodSample upper policy)) = some high ∧
        aggregateValue floats policy new (new.countP (isGoodSample upper policy)) = some low ∧
          floats.le low high = true ∧ floats.isFinite high = true ∧ floats.isFinite low = true := by
  have same_length : new.length = old.length := worse.length_eq.symm
  unfold aggregateValue
  by_cases none : old = []
  · have none_new : new = [] := List.eq_nil_of_length_eq_zero (by rw [same_length, none, List.length_nil])
    exact Or.inl ⟨if_pos none, if_pos none_new⟩
  · have some_old : 0 < old.length := List.length_pos_iff.mpr none
    have some_new : new ≠ [] := List.length_pos_iff.mp (same_length ▸ some_old)
    have fewer := worsened_countP_le worse
    have part : old.countP (isGoodSample upper policy) ≤ old.length := List.countP_le_length
    rw [if_neg none, if_neg some_new, if_pos ratio, if_pos ratio, same_length]
    refine Or.inr ⟨_, _, rfl, rfl, percent_mono ieee fewer part some_old, ?_, ?_⟩
    · exact ieee.finite_percent _ _ part some_old
    · exact ieee.finite_percent _ _ (fewer.trans part) some_old

/-- Whether anything is bad, of a history that has worsened. -/
theorem currentState_worse
    (worse : Worsened (fun row => !isCollectionFailure upper row) (isGoodSample upper policy) old new) :
    floats.le (if (new.filter fun row => !isGoodSample upper policy row) = [] then floats.hundred else floats.zero)
      (if (old.filter fun row => !isGoodSample upper policy row) = [] then floats.hundred else floats.zero) = true := by
  by_cases clean : (new.filter fun row => !isGoodSample upper policy row) = []
  · have all_good : new.countP (isGoodSample upper policy) = new.length := by
      rw [List.countP_eq_length]
      intro row member
      simpa using List.filter_eq_nil_iff.mp clean row member
    have was_clean : (old.filter fun row => !isGoodSample upper policy row) = [] := by
      have all_were : old.countP (isGoodSample upper policy) = old.length :=
        le_antisymm List.countP_le_length (worse.length_eq ▸ all_good ▸ worsened_countP_le worse)
      rw [List.filter_eq_nil_iff]
      intro row member
      simpa using List.countP_eq_length.mp all_were row member
    rw [if_pos clean, if_pos was_clean]
    exact ieee.le_refl _ ieee.finite_hundred
  · rw [if_neg clean]
    split
    · exact ieee.zero_le_hundred
    · exact ieee.le_refl _ ieee.finite_zero

omit ieee in
/-- Neither of the present nor of findings, a policy reads the whole window. -/
theorem sampleFindings_actualValue {rows : List MetricRow} (no_state : policy.policyModel ≠ .currentState)
    (no_inventory : policy.policyModel ≠ .findingInventory) :
    (sampleFindings floats upper parseTime policy targetId windowEnd rows).actualValue =
      aggregateValue floats policy
        ((rows.filter fun row => !isMaintenanceSample row.collectedAt policy.maintenanceWindows).filter
          fun row => !isCollectionFailure upper row)
        (((rows.filter fun row => !isMaintenanceSample row.collectedAt policy.maintenanceWindows).filter
          fun row => !isCollectionFailure upper row).countP (isGoodSample upper policy)) := by
  unfold sampleFindings
  simp only [no_state, no_inventory, or_self, if_false]

theorem sampleFindings_worse
    (model : policy.policyModel = .currentState ∨
      (policy.policyModel ≠ .findingInventory ∧ policy.aggregation = .successRatio))
    (worse : Worsened (fun row => !isCollectionFailure upper row) (isGoodSample upper policy) old new) :
    WorseFindings floats (sampleFindings floats upper parseTime policy targetId windowEnd old)
      (sampleFindings floats upper parseTime policy targetId windowEnd new) := by
  have window := measuredRows_worse worse
  have same_length := window.length_eq.symm
  refine worseFindings_of_value ieee ?_ ?_ ?_ ?_ ?_ ?_
  · change decide (_ = []) = decide (_ = [])
    refine decide_eq_decide.mpr ?_
    rw [← List.length_eq_zero_iff, ← List.length_eq_zero_iff, same_length]
  · have kept := worsened_filter (fun row => !isMaintenanceSample row.collectedAt policy.maintenanceWindows)
      (fun before after turned => by rw [turned.collectedAt]) worse
    have times := worsened_map (fun row => parseTime row.collectedAt)
      (fun before after turned => by rw [turned.collectedAt]) kept
    change freshnessOf floats parseTime windowEnd _ = freshnessOf floats parseTime windowEnd _
    unfold freshnessOf
    rw [times]
  · exact same_length
  · by_cases state : policy.policyModel = .currentState
    · unfold sampleFindings
      simp only [state, true_or, if_true]
      refine Or.inr ⟨_, _, rfl, rfl, currentState_worse ieee (latestCycle_worsened window), ?_, ?_⟩
      · split
        · exact ieee.finite_hundred
        · exact ieee.finite_zero
      · split
        · exact ieee.finite_hundred
        · exact ieee.finite_zero
    · obtain ⟨no_inventory, ratio⟩ := model.resolve_left state
      rw [sampleFindings_actualValue state no_inventory, sampleFindings_actualValue state no_inventory]
      exact aggregateValue_worse ieee ratio window
  · intro found member
    rcases List.mem_pair.mp member with rfl | rfl <;> rfl
  · intro paged
    cases paged

end Samples

/-! ## Minutes -/

def isAttempted (sampling : Sampling) (windowStart windowEnd : String) (row : MetricRow) : Bool :=
  row.metricCode ∈ sampling.metricCodes && inScope sampling row &&
    windowStart ≤ row.collectedAt && row.collectedAt < windowEnd && !Months.inMaintenance sampling row

/-- A row whose error says that nothing was measured. -/
def isExcluded (sampling : Sampling) (row : MetricRow) : Bool :=
  asciiUpper (row.errorType.getD "") ∈ sampling.excludedErrorTypes

/-- What `minute_counts` and `minute_details` give for a target. -/
def minuteSamples (sampling : Sampling) (windows : Windows) (windowStart windowEnd targetId : String)
    (rows : List MetricRow) : MinuteSamples :=
  let attempted :=
    if asksNothing sampling then []
    else rows.filter fun row => isAttempted sampling windowStart windowEnd row && decide (row.targetId = targetId)
  let measured := attempted.filter fun row => !isExcluded sampling row
  let isUp (text : String) : Bool := measured.any fun row => decide (minute row = text) && isGood sampling row
  { counts := fun name =>
      let figure := (namedMinuteCounts sampling windows windowEnd rows).figure targetId name
      (figure.observed, figure.good)
    collectionRows := attempted.countP (isExcluded sampling)
    newest := (attempted.map fun row => row.collectedAt).max?
    newestMinuteUp := (measured.map minute).max?.map isUp
    failuresByStatus := countByStatus asciiUpper (measured.filter fun row => !isUp (minute row)) }

/-- The scope a policy's targets are expected in. -/
structure Scope where
  targetIds : List String
  serverIds : List String
  dbTypes : List String

/-- What a policy asks of the store; its statuses are put in upper case. -/
def samplingOf {F : Type} (upper : String → String) (policy : SlaPolicy F) (scope : Scope) : Sampling where
  targetIds := scope.targetIds
  serverIds := scope.serverIds
  dbTypes := scope.dbTypes
  metricCodes := policy.metricCodes
  goodStatuses := policy.goodStatuses.map upper
  excludedErrorTypes := collectionFailureTypes
  maintenanceWindows := policy.maintenanceWindows

/-- `window_starts`, when a window of so many minutes starts at `startOf` them. -/
def windowsOf {F : Type} (policy : SlaPolicy F) (startOf : Nat → String) : Windows :=
  ("policy", startOf (policy.windowHours * 60)) ::
    (burnWindows policy).map fun minutes => (windowLabel minutes, startOf minutes)

section Minutes

variable {sampling : Sampling} {windows : Windows} {windowStart windowEnd targetId name : String}
  {old new : List MetricRow}

theorem isCounted_turned {earliest : String} {before after : MetricRow}
    (turned : TurnsBad (fun row => !isExcluded sampling row) (isGood sampling) before after) :
    isCounted sampling earliest windowEnd after = isCounted sampling earliest windowEnd before := by
  have measured : decide (asciiUpper (after.errorType.getD "") ∉ sampling.excludedErrorTypes) =
      decide (asciiUpper (before.errorType.getD "") ∉ sampling.excludedErrorTypes) := by
    have was := turned.was_measured
    have is := turned.measured
    simp only [isExcluded, Bool.not_eq_true', decide_eq_false_iff_not] at was is
    rw [decide_eq_true was, decide_eq_true is]
  unfold isCounted inScope Months.inMaintenance
  rw [measured, turned.metricCode, turned.targetId, turned.serverId, turned.dbType, turned.collectedAt]

/-- The minutes of a history that has worsened are the same, and none is good that was not. -/
theorem minutesOf_worse (targetId windowEnd : String)
    (worse : Worsened (fun row => !isExcluded sampling row) (isGood sampling) old new) (earliest : String) :
    minutesOf targetId (new.filter (isCounted sampling earliest windowEnd)) =
        minutesOf targetId (old.filter (isCounted sampling earliest windowEnd)) ∧
      minutesOf targetId ((new.filter (isCounted sampling earliest windowEnd)).filter (isGood sampling)) ⊆
        minutesOf targetId ((old.filter (isCounted sampling earliest windowEnd)).filter (isGood sampling)) := by
  have counted := worsened_filter (isCounted sampling earliest windowEnd)
    (fun before after turned => isCounted_turned turned) worse
  constructor
  · unfold minutesOf
    have own := worsened_filter (fun row => decide (row.targetId = targetId))
      (fun before after turned => by rw [turned.targetId]) counted
    rw [worsened_map minute (fun before after turned => by rw [minute, turned.collectedAt, minute]) own]
  · intro text member
    obtain ⟨row, among, own, rfl⟩ := mem_minutesOf.mp member
    obtain ⟨there, good⟩ := List.mem_filter.mp among
    exact mem_minutesOf.mpr ⟨row, List.mem_filter.mpr ⟨good_of_worsened counted row there good, good⟩, own, rfl⟩

theorem figure_worse (worse : Worsened (fun row => !isExcluded sampling row) (isGood sampling) old new)
    (name : String) :
    ((namedMinuteCounts sampling windows windowEnd new).figure targetId name).observed =
        ((namedMinuteCounts sampling windows windowEnd old).figure targetId name).observed ∧
      ((namedMinuteCounts sampling windows windowEnd new).figure targetId name).good ≤
        ((namedMinuteCounts sampling windows windowEnd old).figure targetId name).good := by
  unfold namedMinuteCounts
  split
  · exact ⟨rfl, le_rfl⟩
  · dsimp only
    cases windows.lookup name with
    | none => exact ⟨rfl, le_rfl⟩
    | some start =>
      obtain ⟨same, fewer⟩ := minutesOf_worse targetId windowEnd worse (earliestStart windows)
      dsimp only
      rw [same]
      exact ⟨rfl, Finset.card_le_card (Finset.filter_subset_filter _ fewer)⟩

/-- The good minutes are among those observed. -/
theorem good_le_observed (rows : List MetricRow) (name : String) :
    ((namedMinuteCounts sampling windows windowEnd rows).figure targetId name).good ≤
      ((namedMinuteCounts sampling windows windowEnd rows).figure targetId name).observed := by
  unfold namedMinuteCounts
  split
  · exact le_rfl
  · dsimp only
    cases windows.lookup name with
    | none => exact le_rfl
    | some start =>
      have among : minutesOf targetId ((rows.filter (isCounted sampling (earliestStart windows) windowEnd)).filter
          (isGood sampling)) ⊆
            minutesOf targetId (rows.filter (isCounted sampling (earliestStart windows) windowEnd)) := by
        intro text member
        obtain ⟨row, good, own, rfl⟩ := mem_minutesOf.mp member
        exact mem_minutesOf.mpr ⟨row, (List.mem_filter.mp good).1, own, rfl⟩
      exact Finset.card_le_card (Finset.filter_subset_filter _ among)

theorem newest_worse (worse : Worsened (fun row => !isExcluded sampling row) (isGood sampling) old new) :
    (minuteSamples sampling windows windowStart windowEnd targetId new).newest =
      (minuteSamples sampling windows windowStart windowEnd targetId old).newest := by
  unfold minuteSamples
  dsimp only
  split
  · rfl
  · have attempted := worsened_filter
      (fun row => isAttempted sampling windowStart windowEnd row && decide (row.targetId = targetId))
      (fun before after turned => by
        unfold isAttempted inScope Months.inMaintenance
        rw [turned.metricCode, turned.targetId, turned.serverId, turned.dbType, turned.collectedAt]) worse
    rw [worsened_map (fun row => row.collectedAt) (fun before after turned => turned.collectedAt) attempted]

end Minutes

section Burning

variable {F : Type} {floats : Floats F} (ieee : Ieee floats) {policy : SlaPolicy F} {before after : MinuteSamples}

structure WorseMinutes (before after : MinuteSamples) : Prop where
  observed : ∀ name, (after.counts name).1 = (before.counts name).1
  good : ∀ name, (after.counts name).2 ≤ (before.counts name).2
  among : ∀ name, (before.counts name).2 ≤ (before.counts name).1
  newest : after.newest = before.newest

theorem minuteSamples_worse {sampling : Sampling} {windows : Windows} {windowStart windowEnd targetId : String}
    {old new : List MetricRow} (worse : Worsened (fun row => !isExcluded sampling row) (isGood sampling) old new) :
    WorseMinutes (minuteSamples sampling windows windowStart windowEnd targetId old)
      (minuteSamples sampling windows windowStart windowEnd targetId new) where
  observed name := (figure_worse worse name).1
  good name := (figure_worse worse name).2
  among name := good_le_observed old name
  newest := newest_worse worse

include ieee

variable (policy) in
/-- Each window burns at no lower rate, and what a rate has reached it reaches still. -/
theorem burnRateOf_worse (worse : WorseMinutes before after) (minutes : Nat) :
    (burnRateOf floats policy before minutes = none ∧ burnRateOf floats policy after minutes = none) ∨
      ∃ low high, burnRateOf floats policy before minutes = some low ∧
        burnRateOf floats policy after minutes = some high ∧
        (∀ factor, floats.le factor low = true → floats.le factor high = true) ∧ floats.lt high low = false := by
  have observed := worse.observed (windowLabel minutes)
  have good := worse.good (windowLabel minutes)
  have among := worse.among (windowLabel minutes)
  unfold burnRateOf
  dsimp only
  rw [observed]
  by_cases unjudged : (before.counts (windowLabel minutes)).1 = 0 ∨
      floats.le (floats.sub (floats.ofInt 1) (floats.div policy.objectivePercent floats.hundred)) floats.zero = true
  · exact Or.inl ⟨if_pos unjudged, if_pos unjudged⟩
  · rw [if_neg unjudged, if_neg unjudged]
    rw [not_or] at unjudged
    have some_minutes := Nat.pos_of_ne_zero unjudged.1
    have risen := ieee.share_mono
      ((before.counts (windowLabel minutes)).1 - (before.counts (windowLabel minutes)).2 : Int)
      ((before.counts (windowLabel minutes)).1 - (after.counts (windowLabel minutes)).2 : Int)
      (before.counts (windowLabel minutes)).1 (by omega) (by omega) (by omega) some_minutes
    have shares := share_not_lower ieee (Bool.eq_false_of_not_eq_true unjudged.2) risen
      (ieee.finite_share _ _ (by omega) (by omega) some_minutes)
      (ieee.finite_share _ _ (by omega) (by omega) some_minutes) 4
    exact Or.inr ⟨_, _, rfl, rfl, fun factor => (shares factor).1, (shares floats.zero).2⟩

theorem isFiring_worse (worse : WorseMinutes before after) {pair : BurnRateAlert F}
    (fires : isFiring floats policy before pair = true) : isFiring floats policy after pair = true := by
  unfold isFiring at fires ⊢
  rcases burnRateOf_worse ieee policy worse pair.longWindowMinutes with
    ⟨none_before, -⟩ | ⟨_, _, long_before, long_after, long, -⟩
  · rw [none_before] at fires
    cases fires
  · rcases burnRateOf_worse ieee policy worse pair.shortWindowMinutes with
      ⟨none_before, -⟩ | ⟨_, _, short_before, short_after, short, -⟩
    · rw [long_before, none_before] at fires
      cases fires
    · rw [long_before, short_before] at fires
      rw [long_after, short_after]
      simp only [Bool.and_eq_true] at fires ⊢
      exact ⟨long _ fires.1, short _ fires.2⟩

theorem burnAlertOf_worse (worse : WorseMinutes before after) (pages : burnAlertOf floats policy before = some .page) :
    burnAlertOf floats policy after = some .page := by
  unfold burnAlertOf at pages ⊢
  dsimp only at pages ⊢
  split_ifs at pages with firing
  · obtain ⟨pair, member, severity⟩ := List.mem_map.mp firing
    obtain ⟨listed, fires⟩ := List.mem_filter.mp member
    exact if_pos (List.mem_map.mpr ⟨pair, List.mem_filter.mpr ⟨listed, isFiring_worse ieee worse fires⟩, severity⟩)
  · cases pages

theorem minuteFindings_worse {parseTime : String → Lib.Coerce.Instant} {targetId windowEnd : String}
    (worse : WorseMinutes before after) :
    WorseFindings floats (minuteFindings floats parseTime policy targetId windowEnd before)
      (minuteFindings floats parseTime policy targetId windowEnd after) := by
  have observed := worse.observed "policy"
  have among := worse.among "policy"
  refine worseFindings_of_value ieee ?_ ?_ ?_ ?_ ?_ (burnAlertOf_worse ieee worse)
  · change decide ((after.counts "policy").1 = 0) = decide ((before.counts "policy").1 = 0)
    rw [observed]
  · unfold minuteFindings
    dsimp only
    rw [worse.newest]
  · exact observed
  · unfold minuteFindings
    dsimp only
    rw [observed]
    by_cases unseen : (before.counts "policy").1 = 0
    · exact Or.inl ⟨if_pos unseen, if_pos unseen⟩
    · have some_minutes := Nat.pos_of_ne_zero unseen
      rw [if_neg unseen, if_neg unseen]
      refine Or.inr ⟨_, _, rfl, rfl, percent_mono ieee (worse.good "policy") among some_minutes, ?_, ?_⟩
      · exact ieee.finite_percent _ _ among some_minutes
      · exact ieee.finite_percent _ _ ((worse.good "policy").trans among) some_minutes
  · intro found member
    rcases List.mem_pair.mp member with rfl | rfl <;> rfl

end Burning

/-! ## Verdicts -/

/-- What `policies.parse_policy` lets no policy be: a count of findings or of breaches is compared with an upper bound,
and minutes are counted for a time objective only. -/
def isAccepted {F : Type} (policy : SlaPolicy F) : Bool :=
  (policy.aggregation ≠ .minutes || policy.policyModel = .timeSlo) &&
    (policy.policyModel ∉ [.findingInventory, .backupRpo, .restoreDrill] || policy.comparisonOperator ∈ [.le, .lt])

section Verdicts

variable {F : Type} (judging : Judging F) (policy : SlaPolicy F) (scope : Scope) (startOf : Nat → String)
  (targetId windowEnd : String)

def evidenceOf (history : List MetricRow) : Evidence F :=
  if policy.aggregation = .minutes then
    .minutes targetId windowEnd (minuteSamples (samplingOf judging.upper policy scope) (windowsOf policy startOf)
      (startOf (policy.windowHours * 60)) windowEnd targetId history)
  else .samples targetId windowEnd history

/-- A sample in which the service was measured. -/
def isMeasured (row : MetricRow) : Bool :=
  if policy.aggregation = .minutes then !isExcluded (samplingOf judging.upper policy scope) row
  else !isCollectionFailure judging.upper row

def isGoodRow (row : MetricRow) : Bool :=
  if policy.aggregation = .minutes then isGood (samplingOf judging.upper policy scope) row
  else isGoodSample judging.upper policy row

variable {judging policy scope}

theorem findings_worse (ieee : Ieee judging.floats)
    (kind : policy.aggregation = .successRatio ∨ policy.aggregation = .minutes ∨ policy.policyModel = .currentState)
    (accepted : isAccepted policy = true) (ge : policy.comparisonOperator = .ge) {old new : List MetricRow}
    (worse : Worsened (isMeasured judging policy scope) (isGoodRow judging policy scope) old new) :
    ∃ before after, judge judging policy (evidenceOf judging policy scope startOf targetId windowEnd old) =
        judgeVerdict judging.floats policy before ∧
      judge judging policy (evidenceOf judging policy scope startOf targetId windowEnd new) =
        judgeVerdict judging.floats policy after ∧
      WorseFindings judging.floats before after ∧
      List.Forall₂ (fun low high => low.1 = high.1 ∧ NotLower judging.floats low.2 high.2) before.burnRates
        after.burnRates := by
  unfold evidenceOf
  by_cases minutes : policy.aggregation = .minutes
  · have measured : isMeasured judging policy scope =
        fun row => !isExcluded (samplingOf judging.upper policy scope) row := by
      funext row
      exact if_pos minutes
    have good : isGoodRow judging policy scope = isGood (samplingOf judging.upper policy scope) := by
      funext row
      exact if_pos minutes
    rw [measured, good] at worse
    rw [if_pos minutes, if_pos minutes]
    have fewer : WorseMinutes (minuteSamples (samplingOf judging.upper policy scope) (windowsOf policy startOf)
        (startOf (policy.windowHours * 60)) windowEnd targetId old)
        (minuteSamples (samplingOf judging.upper policy scope) (windowsOf policy startOf)
          (startOf (policy.windowHours * 60)) windowEnd targetId new) :=
      minuteSamples_worse worse
    refine ⟨_, _, rfl, rfl, minuteFindings_worse ieee fewer, ?_⟩
    refine List.forall₂_map_left_iff.mpr (List.forall₂_map_right_iff.mpr (List.forall₂_same.mpr fun length _ => ?_))
    refine ⟨rfl, ?_⟩
    rcases burnRateOf_worse ieee policy fewer length with ⟨none_before, none_after⟩ | ⟨_, _, low, high, -, rises⟩
    · rw [none_before, none_after]
      trivial
    · rw [low, high]
      exact rises
  · have measured : isMeasured judging policy scope = fun row => !isCollectionFailure judging.upper row := by
      funext row
      exact if_neg minutes
    have good : isGoodRow judging policy scope = isGoodSample judging.upper policy := by
      funext row
      exact if_neg minutes
    have model : policy.policyModel = .currentState ∨
        (policy.policyModel ≠ .findingInventory ∧ policy.aggregation = .successRatio) := by
      rcases kind with ratio | counted | state
      · refine Or.inr ⟨fun inventory => ?_, ratio⟩
        simp [isAccepted, inventory, ge] at accepted
      · exact absurd counted minutes
      · exact Or.inl state
    rw [measured, good] at worse
    rw [if_neg minutes, if_neg minutes]
    exact ⟨_, _, rfl, rfl, sampleFindings_worse ieee model worse, List.Forall₂.nil⟩

/-- When measured good samples turn bad, a verdict of the order moves down in it or stays, every other stays, and no
burn rate falls. -/
theorem worse_never_better (ieee : Ieee judging.floats)
    (kind : policy.aggregation = .successRatio ∨ policy.aggregation = .minutes ∨ policy.policyModel = .currentState)
    (accepted : isAccepted policy = true) (ge : policy.comparisonOperator = .ge) {old new : List MetricRow}
    (worse : Worsened (isMeasured judging policy scope) (isGoodRow judging policy scope) old new) :
    NoBetter (judge judging policy (evidenceOf judging policy scope startOf targetId windowEnd old)).status
        (judge judging policy (evidenceOf judging policy scope startOf targetId windowEnd new)).status ∧
      NotLower judging.floats
        (judge judging policy (evidenceOf judging policy scope startOf targetId windowEnd old)).burnRate
        (judge judging policy (evidenceOf judging policy scope startOf targetId windowEnd new)).burnRate ∧
      List.Forall₂ (fun low high => low.1 = high.1 ∧ NotLower judging.floats low.2 high.2)
        (judge judging policy (evidenceOf judging policy scope startOf targetId windowEnd old)).burnRates
        (judge judging policy (evidenceOf judging policy scope startOf targetId windowEnd new)).burnRates := by
  obtain ⟨before, after, judged_before, judged_after, findings, rates⟩ :=
    findings_worse startOf targetId windowEnd ieee kind accepted ge worse
  rw [judged_before, judged_after]
  exact ⟨statusOf_no_better ieee ge findings, burnRate_not_lower ieee findings, rates⟩

end Verdicts

/-! ## A sample that turned bad -/

theorem round_rationals_mono {a b : ℚ} (digits : Nat) (le : a ≤ b) :
    rationals.round a digits ≤ rationals.round b digits := by
  have power : (0 : ℚ) < 10 ^ digits := by positivity
  have floors : ⌊a * 10 ^ digits + 1 / 2⌋ ≤ ⌊b * 10 ^ digits + 1 / 2⌋ := by
    apply Int.floor_le_floor
    gcongr
  change (⌊a * 10 ^ digits + 1 / 2⌋ : ℚ) / 10 ^ digits ≤ ⌊b * 10 ^ digits + 1 / 2⌋ / 10 ^ digits
  have cast : ((⌊a * 10 ^ digits + 1 / 2⌋ : Int) : ℚ) ≤ ⌊b * 10 ^ digits + 1 / 2⌋ := by exact_mod_cast floors
  gcongr

/-- Where nothing is rounded on the way, rationals calculate as doubles do. -/
theorem rationals_ieee : Ieee rationals where
  le_trans a b c first second := by
    simp only [rationals, decide_eq_true_eq] at *
    exact first.trans second
  lt_of_lt_of_le a b c first second := by
    simp only [rationals, decide_eq_true_eq] at *
    exact first.trans_le second
  lt_of_le_of_lt a b c first second := by
    simp only [rationals, decide_eq_true_eq] at *
    exact first.trans_lt second
  le_of_lt a b less := by
    simp only [rationals, decide_eq_true_eq] at *
    exact less.le
  not_lt_of_le a b le := by
    simp only [rationals, decide_eq_true_eq, decide_eq_false_iff_not, not_lt] at *
    exact le
  le_refl a _ := by simp [rationals]
  finite_zero := rfl
  finite_hundred := rfl
  zero_le_hundred := by simp [rationals, Floats.zero, Floats.hundred]
  round_mono a b digits le := decide_eq_true (round_rationals_mono digits (of_decide_eq_true le))
  finite_round _ _ _ := rfl
  sub_hundred_mono a b le := by
    simp only [rationals, decide_eq_true_eq] at *
    exact sub_le_sub_left le _
  finite_sub_hundred _ _ := rfl
  mul_hundred_mono a b le := by
    simp only [rationals, Floats.hundred, decide_eq_true_eq] at *
    have hundred : (0 : ℚ) ≤ (100 : Int) := by norm_num
    exact mul_le_mul_of_nonneg_right le hundred
  div_mono a b c _ _ le above := by
    simp only [rationals, Floats.zero, decide_eq_true_eq] at *
    have nonneg : 0 ≤ c := by simpa using above.le
    exact div_le_div_of_nonneg_right le nonneg
  share_mono a b whole _ le _ _ := by
    simp only [rationals, decide_eq_true_eq]
    have cast : (a : ℚ) ≤ b := by exact_mod_cast le
    exact div_le_div_of_nonneg_right cast (by positivity)
  finite_share _ _ _ _ _ := rfl
  finite_percent _ _ _ _ := rfl
  not_number c not_below not_above := by
    simp only [rationals, Floats.zero, decide_eq_false_iff_not] at *
    exact absurd (le_of_not_gt not_above) not_below

def goodSample : MetricRow :=
  { sampleResult with
    resultId := 1
    runId := 1
    dailyReportCreated := false }

def badSample : MetricRow := { goodSample with status := "DOWN" }

/-- Half of two samples turned bad: the verdict falls and the budget burns. -/
theorem turned_sample_no_better :
    NoBetter (judge sampleJudging ignoringPolicy (evidenceOf sampleJudging ignoringPolicy ⟨["SALES"], [], []⟩
        (fun _ => "2026-09-30T00:00:00Z") "SALES" "2026-10-01T00:00:00Z" [goodSample, goodSample])).status
      (judge sampleJudging ignoringPolicy (evidenceOf sampleJudging ignoringPolicy ⟨["SALES"], [], []⟩
        (fun _ => "2026-09-30T00:00:00Z") "SALES" "2026-10-01T00:00:00Z" [goodSample, badSample])).status := by
  refine (worse_never_better (fun _ => "2026-09-30T00:00:00Z") "SALES" "2026-10-01T00:00:00Z" rationals_ieee
    (Or.inl rfl) rfl rfl (List.Forall₂.cons (Or.inl rfl) (List.Forall₂.cons (Or.inr ?_) List.Forall₂.nil))).1
  refine ⟨by decide +kernel, by decide +kernel, by decide +kernel, by decide +kernel, rfl, rfl, rfl, rfl, rfl⟩

end DbaBrain.Sla.WorseSamples
