import DbaBrain.Foundation.Double
import DbaBrain.Foundation.Selection

/-!
# Percentiles of weighted values

`weighted_percentiles` walks the values in order and takes the first whose
running weight reaches the percent asked of the total, computed in doubles and
lowered by a tolerance.  That is the value `PERCENTILE_DISC` takes of the list
with each value repeated, for whole percents and totals below ten million, but
for one: at a total of 9,999,999 the tolerance and the doubles together lower
the ninety-ninth percent by a whole weight.
-/

namespace DbaBrain.Lib.WeightedPercentiles

open DbaBrain.Foundation.Double
open DbaBrain.Foundation.Selection (sortedBy mem_sortedBy sortedBy_perm sortedBy_pairwise)

variable {V : Type} [LinearOrder V]

/-- The pairs whose value and weight `as_float` reads, with a weight above zero, by value. -/
def cleaned (pairs : List (Option V × Option ℚ)) : List (V × ℚ) :=
  sortedBy Prod.fst (pairs.filterMap fun item => do
    let value ← item.1
    let weight ← item.2
    if 0 < weight then some (value, weight) else none)

/-- `sum`, in doubles. -/
def totalWeight (entries : List (V × ℚ)) : ℚ := entries.foldl (fun sum entry => double (sum + entry.2)) 0

/-- `(q / 100.0) * total_weight - 1e-9 * total_weight`, each step rounded. -/
def threshold (q : ℤ) (total : ℚ) : ℚ :=
  double (double (double (q / 100) * total) - double (double (1 / 10 ^ 9) * total))

/-- The loop: the first value whose running weight reaches the threshold. -/
def reached (least : ℚ) : ℚ → List (V × ℚ) → Option V
  | _, [] => none
  | sum, (value, weight) :: rest =>
      if least ≤ double (sum + weight) then some value else reached least (double (sum + weight)) rest

def weightedPercentile (pairs : List (Option V × Option ℚ)) (q : ℤ) : Option V :=
  let entries := cleaned pairs
  if entries = [] then none
  else
    let total := totalWeight entries
    if total ≤ 0 then none
    else (reached (threshold q total) 0 entries).or (entries.getLast?.map Prod.fst)

def weightedPercentiles (pairs : List (Option V × Option ℚ)) (quantiles : List ℤ) : List (ℤ × Option V) :=
  quantiles.map fun q => (q, weightedPercentile pairs q)

/-! ## `PERCENTILE_DISC` -/

/-- The first value, in order, whose share of values up to it reaches the fraction. -/
def percentileDisc (fraction : ℚ) (values : List V) : Option V :=
  (sortedBy id values).find? fun value => fraction * values.length ≤ values.countP (· ≤ value)

/-- Values with whole weights, as the function is given them. -/
def given (weights : List (V × ℕ)) : List (Option V × Option ℚ) :=
  weights.map fun entry => (some entry.1, some (entry.2 : ℚ))

/-- Each value as often as its weight says. -/
def repeated (weights : List (V × ℕ)) : List V := weights.flatMap fun entry => List.replicate entry.2 entry.1

def total (weights : List (V × ℕ)) : ℕ := (weights.map Prod.snd).sum

def weightUpTo (weights : List (V × ℕ)) (value : V) : ℕ :=
  ((weights.filter fun entry => entry.1 ≤ value).map Prod.snd).sum

theorem percentileDisc_eq_some_iff {fraction : ℚ} {values : List V} {value : V} :
    percentileDisc fraction values = some value ↔
      IsLeast {v | v ∈ values ∧ fraction * values.length ≤ values.countP (· ≤ v)} value := by
  have sorted : (sortedBy id values).Pairwise fun first second => first ≤ second := sortedBy_pairwise id values
  unfold percentileDisc
  rw [List.find?_eq_some_iff_append, decide_eq_true_eq]
  constructor
  · rintro ⟨reaches, front, back, split, before⟩
    refine ⟨⟨?_, reaches⟩, ?_⟩
    · rw [← mem_sortedBy id values, split]
      simp
    · rintro other ⟨member, also⟩
      rw [← mem_sortedBy id values, split] at member
      rw [split] at sorted
      rcases List.mem_append.mp member with early | late
      · exact absurd also (by simpa using before other early)
      · rcases List.mem_cons.mp late with rfl | later
        · exact le_rfl
        · exact (List.pairwise_cons.mp (List.pairwise_append.mp sorted).2.1).1 other later
  · rintro ⟨⟨member, reaches⟩, least⟩
    rw [← mem_sortedBy id values] at member
    obtain ⟨front, back, split, absent⟩ := List.eq_append_cons_of_mem member
    refine ⟨reaches, front, back, split, ?_⟩
    intro other early
    rw [split] at sorted
    have below := (List.pairwise_append.mp sorted).2.2 other early value List.mem_cons_self
    have apart : other ≠ value := fun same => absent (same ▸ early)
    have inside : other ∈ values := by
      rw [← mem_sortedBy id values, split]
      exact List.mem_append_left _ early
    simp only [Bool.not_eq_true', decide_eq_false_iff_not]
    intro also
    exact apart (le_antisymm below (least ⟨inside, also⟩))

/-! ## The loop on whole weights -/

/-- The entries with a weight above zero, by value. -/
def ordered (weights : List (V × ℕ)) : List (V × ℕ) := sortedBy Prod.fst (weights.filter fun entry => 0 < entry.2)

theorem weightUpTo_cons_of_le {entry : V × ℕ} {rest : List (V × ℕ)} {value : V} (below : entry.1 ≤ value) :
    weightUpTo (entry :: rest) value = entry.2 + weightUpTo rest value := by
  rw [weightUpTo, weightUpTo, List.filter_cons_of_pos (by simpa using below), List.map_cons, List.sum_cons]

theorem weightUpTo_cons_of_lt {entry : V × ℕ} {rest : List (V × ℕ)} {value : V} (above : value < entry.1) :
    weightUpTo (entry :: rest) value = weightUpTo rest value := by
  rw [weightUpTo, weightUpTo, List.filter_cons_of_neg (by simpa using above)]

theorem weightUpTo_eq_zero {rest : List (V × ℕ)} {value : V} (above : ∀ entry ∈ rest, value < entry.1) :
    weightUpTo rest value = 0 := by
  have none : (rest.filter fun entry => entry.1 ≤ value) = [] := by
    rw [List.filter_eq_nil_iff]
    intro entry member
    simpa using above entry member
  rw [weightUpTo, none]
  rfl

theorem weightUpTo_le (weights : List (V × ℕ)) (value : V) : weightUpTo weights value ≤ total weights :=
  (List.filter_sublist.map Prod.snd).sum_le_sum fun _ _ => Nat.zero_le _

def inDoubles (entries : List (V × ℕ)) : List (V × ℚ) := entries.map fun entry => (entry.1, (entry.2 : ℚ))

theorem reached_eq_some_iff {least : ℚ} {sum : ℕ} {entries : List (V × ℕ)} {value : V}
    (sorted : entries.Pairwise fun first second => first.1 ≤ second.1) (small : sum + total entries < 2 ^ 53) :
    reached least sum (inDoubles entries) = some value ↔
      IsLeast {v | v ∈ entries.map Prod.fst ∧ least ≤ (sum + weightUpTo entries v : ℕ)} value := by
  induction entries generalizing sum with
  | nil => simp [reached, inDoubles, IsLeast]
  | cons entry rest ih =>
    obtain ⟨first, weight⟩ := entry
    obtain ⟨above, others⟩ := List.pairwise_cons.mp sorted
    have more : total ((first, weight) :: rest) = weight + total rest := by simp [total]
    have exact_ : double ((sum : ℚ) + (weight : ℚ)) = ((sum + weight : ℕ) : ℚ) := by
      rw [← Nat.cast_add, double_natCast (by omega)]
    rw [inDoubles, List.map_cons, reached, exact_]
    by_cases here : least ≤ ((sum + weight : ℕ) : ℚ)
    · rw [if_pos here]
      have reaching : least ≤ ((sum + weightUpTo ((first, weight) :: rest) first : ℕ) : ℚ) := by
        rw [weightUpTo_cons_of_le le_rfl]
        refine here.trans ?_
        exact_mod_cast (by omega : sum + weight ≤ sum + (weight + weightUpTo rest first))
      have lowest : IsLeast {v | v ∈ ((first, weight) :: rest).map Prod.fst ∧
          least ≤ ((sum + weightUpTo ((first, weight) :: rest) v : ℕ) : ℚ)} first := by
        refine ⟨⟨List.mem_cons_self, reaching⟩, ?_⟩
        rintro other ⟨member, -⟩
        rcases List.mem_cons.mp member with rfl | later
        · exact le_rfl
        · obtain ⟨item, among, rfl⟩ := List.mem_map.mp later
          exact above item among
      rw [Option.some.injEq]
      constructor
      · rintro rfl
        exact lowest
      · exact lowest.unique
    · rw [if_neg here]
      have inner := @ih (sum + weight) others (by omega)
      rw [inDoubles] at inner
      rw [inner]
      refine iff_of_eq (congrArg (IsLeast · value) (Set.ext fun v => ?_))
      simp only [Set.mem_ofPred_eq, List.map_cons, List.mem_cons]
      constructor
      · rintro ⟨member, reaches⟩
        obtain ⟨item, among, rfl⟩ := List.mem_map.mp member
        refine ⟨Or.inr member, ?_⟩
        rw [weightUpTo_cons_of_le (above item among)]
        simpa [add_assoc] using reaches
      · rintro ⟨member, reaches⟩
        by_cases later : v ∈ rest.map Prod.fst
        · obtain ⟨item, among, rfl⟩ := List.mem_map.mp later
          refine ⟨later, ?_⟩
          rw [weightUpTo_cons_of_le (above item among)] at reaches
          simpa [add_assoc] using reaches
        · obtain rfl := member.resolve_right later
          have beyond : ∀ item ∈ rest, v < item.1 := by
            intro item among
            refine (above item among).lt_of_ne ?_
            rintro same
            exact later (List.mem_map.mpr ⟨item, among, same.symm⟩)
          rw [weightUpTo_cons_of_le le_rfl, weightUpTo_eq_zero beyond, Nat.add_zero] at reaches
          exact absurd reaches here

omit [LinearOrder V] in
theorem reached_isSome (least : ℚ) {sum : ℕ} {entries : List (V × ℕ)} (some_entry : entries ≠ [])
    (small : sum + total entries < 2 ^ 53) (low : least ≤ (sum + total entries : ℕ)) :
    (reached least sum (inDoubles entries)).isSome = true := by
  induction entries generalizing sum with
  | nil => exact absurd rfl some_entry
  | cons entry rest ih =>
    obtain ⟨first, weight⟩ := entry
    have more : total ((first, weight) :: rest) = weight + total rest := by simp [total]
    have whole : double ((sum : ℚ) + (weight : ℚ)) = ((sum + weight : ℕ) : ℚ) := by
      rw [← Nat.cast_add, double_natCast (by omega)]
    rw [inDoubles, List.map_cons, reached, whole]
    split
    · rfl
    · rename_i here
      rw [more, ← add_assoc] at low
      have others : rest ≠ [] := by
        rintro rfl
        exact here low
      exact ih others (by omega) low

omit [LinearOrder V] in
theorem totalWeight_inDoubles {entries : List (V × ℕ)} (small : total entries < 2 ^ 53) :
    totalWeight (inDoubles entries) = total entries := by
  have run (sum : ℕ) (bound : sum + total entries < 2 ^ 53) :
      (inDoubles entries).foldl (fun sum entry => double (sum + entry.2)) (sum : ℚ) = (sum + total entries : ℕ) := by
    clear small
    induction entries generalizing sum with
    | nil => simp [inDoubles, total]
    | cons entry rest ih =>
      have more : total (entry :: rest) = entry.2 + total rest := by simp [total]
      have whole : double ((sum : ℚ) + (entry.2 : ℚ)) = ((sum + entry.2 : ℕ) : ℚ) := by
        rw [← Nat.cast_add, double_natCast (by omega)]
      rw [inDoubles, List.map_cons, List.foldl_cons, whole]
      exact (ih (sum + entry.2) (by omega)).trans (by rw [more, add_assoc])
  rw [totalWeight]
  simpa using run 0 (by simpa using small)

/-! ## The entries -/

theorem cleaned_given (weights : List (V × ℕ)) : cleaned (given weights) = inDoubles (ordered weights) := by
  have kept : (given weights).filterMap (fun item => do
      let value ← item.1
      let weight ← item.2
      if 0 < weight then some (value, weight) else none) = inDoubles (weights.filter fun entry => 0 < entry.2) := by
    rw [given, List.filterMap_map, inDoubles]
    induction weights with
    | nil => rfl
    | cons entry rest ih =>
      rw [List.filterMap_cons, ih]
      by_cases positive : 0 < entry.2
      · simp [positive]
      · simp [positive]
  rw [cleaned, kept, ordered, inDoubles, inDoubles]
  symm
  apply List.map_insertionSort
  intro first _ second _
  exact Iff.rfl

theorem ordered_perm (weights : List (V × ℕ)) : (ordered weights).Perm (weights.filter fun entry => 0 < entry.2) :=
  sortedBy_perm Prod.fst _

theorem mem_ordered {weights : List (V × ℕ)} {value : V} :
    value ∈ (ordered weights).map Prod.fst ↔ ∃ weight, 0 < weight ∧ (value, weight) ∈ weights := by
  rw [((ordered_perm weights).map Prod.fst).mem_iff]
  simp [and_comm]

omit [LinearOrder V] in
theorem sum_positive (weights : List (V × ℕ)) :
    ((weights.filter fun entry => 0 < entry.2).map Prod.snd).sum = (weights.map Prod.snd).sum := by
  induction weights with
  | nil => rfl
  | cons entry rest ih =>
    by_cases positive : 0 < entry.2
    · rw [List.filter_cons_of_pos (by simpa using positive), List.map_cons, List.sum_cons, ih, List.map_cons,
        List.sum_cons]
    · rw [List.filter_cons_of_neg (by simpa using positive), ih, List.map_cons, List.sum_cons,
        Nat.eq_zero_of_not_pos positive, Nat.zero_add]

theorem total_ordered (weights : List (V × ℕ)) : total (ordered weights) = total weights := by
  rw [total, ((ordered_perm weights).map Prod.snd).sum_eq, sum_positive]
  rfl

theorem weightUpTo_ordered (weights : List (V × ℕ)) (value : V) :
    weightUpTo (ordered weights) value = weightUpTo weights value := by
  rw [weightUpTo, (((ordered_perm weights).filter _).map Prod.snd).sum_eq, List.filter_comm, sum_positive]
  rfl

theorem ordered_ne_nil {weights : List (V × ℕ)} (some_weight : 0 < total weights) : ordered weights ≠ [] := by
  intro empty
  rw [← total_ordered, empty] at some_weight
  exact absurd some_weight (lt_irrefl 0)

/-- The answer is what the loop reaches, where the threshold is no more than the total. -/
theorem exists_reached {weights : List (V × ℕ)} {q : ℤ} (small : total weights < 2 ^ 53)
    (some_weight : 0 < total weights) (low : threshold q (total weights) ≤ total weights) :
    ∃ answer, weightedPercentile (given weights) q = some answer ∧
      reached (threshold q (total weights)) (0 : ℕ) (inDoubles (ordered weights)) = some answer := by
  have bound : 0 + total (ordered weights) < 2 ^ 53 := by
    rw [total_ordered, zero_add]
    exact small
  have found := reached_isSome (threshold q (total weights)) (ordered_ne_nil some_weight) bound (by
    rw [total_ordered, zero_add]
    exact low)
  obtain ⟨answer, answered⟩ := Option.isSome_iff_exists.mp found
  refine ⟨answer, ?_, answered⟩
  have some_entry : inDoubles (ordered weights) ≠ [] := by simpa [inDoubles] using ordered_ne_nil some_weight
  have positive : ¬ (total weights : ℚ) ≤ 0 := by exact_mod_cast not_le.mpr some_weight
  unfold weightedPercentile
  dsimp only
  rw [cleaned_given, if_neg some_entry, totalWeight_inDoubles (by simpa using bound), total_ordered, if_neg positive]
  rw [Nat.cast_zero] at answered
  rw [answered, Option.some_or]

theorem weightedPercentile_eq_some_iff {weights : List (V × ℕ)} {q : ℤ} {value : V}
    (small : total weights < 2 ^ 53) (some_weight : 0 < total weights)
    (low : threshold q (total weights) ≤ total weights) :
    weightedPercentile (given weights) q = some value ↔
      IsLeast {v | (∃ weight, 0 < weight ∧ (v, weight) ∈ weights) ∧
        threshold q (total weights) ≤ weightUpTo weights v} value := by
  have sorted : (ordered weights).Pairwise fun first second => first.1 ≤ second.1 := sortedBy_pairwise Prod.fst _
  have bound : 0 + total (ordered weights) < 2 ^ 53 := by
    rw [total_ordered, zero_add]
    exact small
  obtain ⟨answer, answered, run⟩ := exists_reached small some_weight low
  rw [answered, ← run, reached_eq_some_iff sorted bound]
  simp only [mem_ordered, weightUpTo_ordered, zero_add]

/-! ## The threshold -/

section Threshold

variable {q : ℤ} {n : ℕ}

/-- The number is no smaller than the least normal double. -/
theorem normal_of_le {x : ℚ} (large : 2 ^ (-40 : ℤ) ≤ x) : (2 : ℚ) ^ (-1022 : ℤ) ≤ x :=
  (zpow_le_zpow_right₀ one_le_two (by norm_num)).trans large

theorem double_between {x : ℚ} (large : 2 ^ (-40 : ℤ) ≤ x) :
    x * (1 - 2 ^ (-53 : ℤ)) ≤ double x ∧ double x ≤ x * (1 + 2 ^ (-53 : ℤ)) := by
  have relative := abs_le.mp (double_relative (normal_of_le large))
  constructor
  · linarith [relative.1]
  · linarith [relative.2]

/-- The fraction in doubles. -/
theorem share_bounds (positive : 1 ≤ q) (whole : q ≤ 100) :
    double (q / 100) ≤ 1 ∧ (q : ℚ) / 100 - 2 ^ (-54 : ℤ) ≤ double (q / 100) := by
  have above : (1 : ℚ) ≤ q := by exact_mod_cast positive
  have below : (q : ℚ) ≤ 100 := by exact_mod_cast whole
  have start : (0 : ℚ) ≤ q / 100 := by linarith
  have unit : (q : ℚ) / 100 ≤ 1 := by linarith
  have absolute := abs_le.mp (double_error (k := 0) start (by simpa using unit) (by norm_num))
  have one := double_natCast (n := 1) (by norm_num)
  rw [Nat.cast_one] at one
  refine ⟨one ▸ double_mono start unit, ?_⟩
  have half := absolute.1
  rw [zero_sub] at half
  linarith

/-- A factor not below the tolerance, times a count, is rounded twice. -/
theorem product_bounds {x : ℚ} (large : 1 / 10 ^ 9 ≤ x) (some_weight : 0 < n) :
    x * n * (1 - 2 ^ (-53 : ℤ)) ^ 2 ≤ double (double x * n) ∧
      double (double x * n) ≤ x * n * (1 + 2 ^ (-53 : ℤ)) ^ 2 := by
  have one : (1 : ℚ) ≤ n := by exact_mod_cast some_weight
  obtain ⟨low, high⟩ := double_between (x := x) (le_trans (by norm_num) large)
  have least := mul_le_mul_of_nonneg_right low (by linarith : (0 : ℚ) ≤ n)
  have most := mul_le_mul_of_nonneg_right high (by linarith : (0 : ℚ) ≤ n)
  have product : x ≤ x * n := le_mul_of_one_le_right (le_trans (by norm_num) large) one
  have wide : (2 : ℚ) ^ (-40 : ℤ) ≤ double x * n := by
    refine le_trans ?_ least
    norm_num at large ⊢
    linarith
  obtain ⟨below, above⟩ := double_between wide
  constructor
  · refine le_trans ?_ below
    norm_num at least ⊢
    linarith
  · refine above.trans ?_
    norm_num at most ⊢
    linarith

/-- The share of the total in doubles. -/
theorem part_bounds (positive : 1 ≤ q) (whole : q ≤ 100) (small : n < 10 ^ 7) :
    double (double (q / 100) * n) ≤ n ∧
      (n : ℚ) * (q / 100 - 2 ^ (-54 : ℤ)) - 2 ^ (-30 : ℤ) ≤ double (double (q / 100) * n) := by
  have count : (0 : ℚ) ≤ n := Nat.cast_nonneg n
  have bound : (n : ℚ) < 10 ^ 7 := by exact_mod_cast small
  have share : (1 : ℚ) ≤ q := by exact_mod_cast positive
  obtain ⟨unit, near⟩ := share_bounds positive whole
  have close := mul_le_mul_of_nonneg_right near count
  have within := mul_le_mul_of_nonneg_right unit count
  have start : 0 ≤ double (q / 100) * n := mul_nonneg (double_nonneg (by linarith)) count
  have absolute := abs_le.mp (double_error (k := 24) start (by norm_num; linarith) (by norm_num))
  rw [one_mul] at within
  have top := double_mono start within
  rw [double_natCast (by omega)] at top
  have half := absolute.1
  refine ⟨top, ?_⟩
  norm_num at half close ⊢
  linarith

/-- The difference the threshold is rounded from is not negative, and at most the exact share. -/
theorem difference_bounds (positive : 1 ≤ q) (whole : q ≤ 100) (some_weight : 0 < n) :
    0 ≤ double (double (q / 100) * n) - double (double (1 / 10 ^ 9) * n) ∧
      double (double (q / 100) * n) - double (double (1 / 10 ^ 9) * n) ≤ n * (q / 100) := by
  have one : (1 : ℚ) ≤ n := by exact_mod_cast some_weight
  have share : (1 : ℚ) ≤ q := by exact_mod_cast positive
  have most : (q : ℚ) ≤ 100 := by exact_mod_cast whole
  obtain ⟨low, high⟩ := product_bounds (x := q / 100) (by norm_num; linarith) some_weight
  obtain ⟨least, top⟩ := product_bounds le_rfl some_weight
  have above : (n : ℚ) ≤ n * q := le_mul_of_one_le_right (by linarith) share
  have below : (n : ℚ) * q ≤ n * 100 := mul_le_mul_of_nonneg_left most (by linarith)
  norm_num at low high least top
  constructor
  · linarith
  · linarith

theorem threshold_mono {other : ℤ} (positive : 1 ≤ q) (later : q ≤ other) (whole : other ≤ 100) (some_weight : 0 < n) :
    threshold q n ≤ threshold other n := by
  have share : (0 : ℚ) ≤ q / 100 := by
    have above : (1 : ℚ) ≤ q := by exact_mod_cast positive
    linarith
  have shares : (q : ℚ) / 100 ≤ other / 100 := by
    have ordered : (q : ℚ) ≤ other := by exact_mod_cast later
    linarith
  have start := (difference_bounds positive (later.trans whole) some_weight).1
  refine double_mono start (sub_le_sub_right (double_mono ?_ ?_) _)
  · exact mul_nonneg (double_nonneg share) (Nat.cast_nonneg n)
  · exact mul_le_mul_of_nonneg_right (double_mono share shares) (Nat.cast_nonneg n)

theorem threshold_le {sum : ℕ} (positive : 1 ≤ q) (whole : q ≤ 100) (some_weight : 0 < n) (small : n < 10 ^ 7)
    (bound : sum ≤ n) (reaches : q * n ≤ 100 * sum) : threshold q n ≤ sum := by
  obtain ⟨start, below⟩ := difference_bounds positive whole some_weight
  have exceeds : (n : ℚ) * (q / 100) ≤ sum := by
    have counted : (q : ℚ) * n ≤ 100 * sum := by exact_mod_cast reaches
    linarith
  have rounded := double_mono start (below.trans exceeds)
  rwa [double_natCast (by omega)] at rounded

/-- A weight short of the share by a hundredth is, but for the largest total, short by two hundredths where the
tolerance nears one. -/
theorem short_by (positive : 1 ≤ q) (whole : q ≤ 100) {sum : ℕ} (small : n < 10 ^ 7)
    (other : ¬ (n = 9999999 ∧ q = 99)) (short : 100 * (sum : ℤ) < q * n) :
    n ≤ 9999997 ∨ 100 * (sum : ℤ) + 2 ≤ q * n := by
  by_cases low : n ≤ 9999997
  · exact Or.inl low
  · obtain rfl | rfl : n = 9999998 ∨ n = 9999999 := by omega
    · right
      push_cast at short ⊢
      omega
    · right
      push_cast at short ⊢
      omega

theorem lt_threshold (positive : 1 ≤ q) (whole : q ≤ 100) {sum : ℕ} (some_weight : 0 < n) (small : n < 10 ^ 7)
    (other : ¬ (n = 9999999 ∧ q = 99)) (short : 100 * (sum : ℤ) < q * n) : (sum : ℚ) < threshold q n := by
  have bound : (n : ℚ) < 10 ^ 7 := by exact_mod_cast small
  obtain ⟨start, -⟩ := difference_bounds positive whole some_weight
  obtain ⟨top, near⟩ := part_bounds positive whole small
  obtain ⟨least, most⟩ := product_bounds le_rfl some_weight
  have positive_tolerance : (0 : ℚ) ≤ double (double (1 / 10 ^ 9) * n) := le_trans (by positivity) least
  have absolute := abs_le.mp (double_error (k := 24) start (by norm_num; linarith) (by norm_num))
  have half := absolute.1
  rw [threshold]
  have gap : (sum : ℚ) + 1 / 100 ≤ n * (q / 100) := by
    have counted : (100 : ℚ) * sum + 1 ≤ q * n := by exact_mod_cast short
    linarith
  norm_num at half near most
  rcases short_by positive whole small other short with low | two
  · have less : (n : ℚ) ≤ 9999997 := by exact_mod_cast low
    linarith
  · have further : (sum : ℚ) + 2 / 100 ≤ n * (q / 100) := by
      have counted : (100 : ℚ) * sum + 2 ≤ q * n := by exact_mod_cast two
      linarith
    linarith

theorem threshold_le_iff (positive : 1 ≤ q) (whole : q ≤ 100) {sum : ℕ} (some_weight : 0 < n) (small : n < 10 ^ 7)
    (bound : sum ≤ n) (other : ¬ (n = 9999999 ∧ q = 99)) : threshold q n ≤ sum ↔ q * n ≤ 100 * sum := by
  constructor
  · intro reached
    by_contra short
    exact absurd reached (not_le.mpr (lt_threshold positive whole some_weight small other (not_le.mp short)))
  · exact threshold_le positive whole some_weight small bound

end Threshold

/-! ## The discrete percentile -/

omit [LinearOrder V] in
theorem mem_repeated {weights : List (V × ℕ)} {value : V} :
    value ∈ repeated weights ↔ ∃ weight, 0 < weight ∧ (value, weight) ∈ weights := by
  rw [repeated, List.mem_flatMap]
  constructor
  · rintro ⟨⟨other, weight⟩, member, among⟩
    obtain ⟨some_weight, rfl⟩ := List.mem_replicate.mp among
    exact ⟨weight, Nat.pos_of_ne_zero some_weight, member⟩
  · rintro ⟨weight, positive, member⟩
    exact ⟨(value, weight), member, List.mem_replicate.mpr ⟨positive.ne', rfl⟩⟩

omit [LinearOrder V] in
theorem length_repeated (weights : List (V × ℕ)) : (repeated weights).length = total weights := by
  simp [repeated, total, List.length_flatMap]

theorem countP_repeated (weights : List (V × ℕ)) (value : V) :
    (repeated weights).countP (· ≤ value) = weightUpTo weights value := by
  induction weights with
  | nil => rfl
  | cons entry rest ih =>
    rw [repeated, List.flatMap_cons, List.countP_append, List.countP_replicate]
    change _ + (repeated rest).countP _ = _
    rw [ih]
    by_cases below : entry.1 ≤ value
    · rw [weightUpTo_cons_of_le below, if_pos (by simpa using below)]
    · rw [weightUpTo_cons_of_lt (not_le.mp below), if_neg (by simpa using below), Nat.zero_add]

theorem percentileDisc_repeated_iff {weights : List (V × ℕ)} {q : ℤ} {value : V} :
    percentileDisc (q / 100) (repeated weights) = some value ↔
      IsLeast {v | (∃ weight, 0 < weight ∧ (v, weight) ∈ weights) ∧
        q * total weights ≤ 100 * (weightUpTo weights v : ℤ)} value := by
  rw [percentileDisc_eq_some_iff, length_repeated]
  refine iff_of_eq (congrArg (IsLeast · value) (Set.ext fun v => ?_))
  simp only [Set.mem_ofPred_eq, mem_repeated, countP_repeated]
  refine and_congr_right fun _ => ?_
  rw [div_mul_eq_mul_div, div_le_iff₀ (by norm_num), mul_comm (weightUpTo weights v : ℚ)]
  exact_mod_cast Iff.rfl

theorem weightedPercentile_of_nothing {weights : List (V × ℕ)} {q : ℤ} (nothing : total weights = 0) :
    weightedPercentile (given weights) q = none := by
  have empty : ordered weights = [] := by
    refine List.eq_nil_iff_forall_not_mem.mpr ?_
    intro entry member
    have counted := List.mem_filter.mp ((ordered_perm weights).mem_iff.mp member)
    have weighs := List.single_le_sum (fun _ _ => Nat.zero_le _) entry.2 (List.mem_map_of_mem counted.1)
    have positive := of_decide_eq_true counted.2
    change entry.2 ≤ total weights at weighs
    omega
  rw [weightedPercentile, cleaned_given, empty]
  rfl

variable {weights : List (V × ℕ)} {q : ℤ}

omit [LinearOrder V] in
theorem threshold_le_total (small : total weights < 10 ^ 7) (some_weight : 0 < total weights) (positive : 1 ≤ q)
    (whole : q ≤ 100) : threshold q (total weights) ≤ total weights :=
  threshold_le positive whole some_weight small le_rfl
    (mul_le_mul_of_nonneg_right whole (Int.natCast_nonneg (total weights)))

theorem weightedPercentile_iff {value : V} (small : total weights < 10 ^ 7) (some_weight : 0 < total weights)
    (positive : 1 ≤ q) (whole : q ≤ 100) :
    weightedPercentile (given weights) q = some value ↔
      IsLeast {v | (∃ weight, 0 < weight ∧ (v, weight) ∈ weights) ∧
        threshold q (total weights) ≤ weightUpTo weights v} value :=
  weightedPercentile_eq_some_iff (small.trans (by norm_num)) some_weight
    (threshold_le_total small some_weight positive whole)

theorem weightedPercentile_eq_disc (small : total weights < 10 ^ 7) (positive : 1 ≤ q) (whole : q ≤ 100)
    (other : ¬ (total weights = 9999999 ∧ q = 99)) :
    weightedPercentile (given weights) q = percentileDisc (q / 100) (repeated weights) := by
  rcases Nat.eq_zero_or_pos (total weights) with nothing | some_weight
  · have empty : repeated weights = [] := by
      rw [← List.length_eq_zero_iff, length_repeated, nothing]
    rw [weightedPercentile_of_nothing nothing, empty]
    rfl
  · refine Option.ext fun value => ?_
    rw [weightedPercentile_iff small some_weight positive whole, percentileDisc_repeated_iff]
    refine iff_of_eq (congrArg (IsLeast · value) (Set.ext fun v => and_congr_right fun _ => ?_))
    exact threshold_le_iff positive whole some_weight small (weightUpTo_le weights v) other

theorem weightedPercentile_perm {others : List (V × ℕ)} (small : total weights < 10 ^ 7) (positive : 1 ≤ q)
    (whole : q ≤ 100) (perm : weights.Perm others) :
    weightedPercentile (given others) q = weightedPercentile (given weights) q := by
  have same : total others = total weights := (perm.map Prod.snd).sum_eq.symm
  rcases Nat.eq_zero_or_pos (total weights) with nothing | some_weight
  · rw [weightedPercentile_of_nothing nothing, weightedPercentile_of_nothing (same.trans nothing)]
  · refine Option.ext fun value => ?_
    rw [weightedPercentile_iff small some_weight positive whole,
      weightedPercentile_iff (same ▸ small) (same ▸ some_weight) positive whole, same]
    have upTo (v : V) : weightUpTo others v = weightUpTo weights v :=
      ((perm.filter _).map Prod.snd).sum_eq.symm
    simp only [upTo, perm.mem_iff]

theorem weightedPercentile_isSome (small : total weights < 10 ^ 7) (some_weight : 0 < total weights)
    (positive : 1 ≤ q) (whole : q ≤ 100) : (weightedPercentile (given weights) q).isSome = true := by
  obtain ⟨answer, answered, -⟩ := exists_reached (small.trans (by norm_num)) some_weight
    (threshold_le_total small some_weight positive whole)
  rw [answered]
  rfl

theorem some_weight_of_mem {value : V} (answered : value ∈ weightedPercentile (given weights) q) :
    0 < total weights := by
  refine Nat.pos_of_ne_zero fun nothing => ?_
  rw [weightedPercentile_of_nothing nothing] at answered
  cases answered

theorem mem_of_weightedPercentile {value : V} (small : total weights < 10 ^ 7) (positive : 1 ≤ q) (whole : q ≤ 100)
    (answered : value ∈ weightedPercentile (given weights) q) : ∃ weight, 0 < weight ∧ (value, weight) ∈ weights :=
  ((weightedPercentile_iff small (some_weight_of_mem answered) positive whole).mp answered).1.1

/-- A higher percent has a higher threshold, which fewer values reach. -/
theorem weightedPercentile_mono {later : ℤ} {value higher : V} (small : total weights < 10 ^ 7) (positive : 1 ≤ q)
    (ordered : q ≤ later) (whole : later ≤ 100) (answered : value ∈ weightedPercentile (given weights) q)
    (also : higher ∈ weightedPercentile (given weights) later) : value ≤ higher := by
  have some_weight := some_weight_of_mem answered
  have least := (weightedPercentile_iff small some_weight positive (ordered.trans whole)).mp answered
  have above := (weightedPercentile_iff small some_weight (positive.trans ordered) whole).mp also
  refine least.2 ⟨above.1.1, ?_⟩
  exact (threshold_mono positive ordered whole some_weight).trans above.1.2

/-- For whole percents and whole weights of a total below ten million the percentile is `PERCENTILE_DISC` of the values
repeated by their weights, but for the ninety-ninth percent of 9,999,999; it does not depend on the order of the pairs,
is a value of a weight above zero, and grows with the percent. -/
theorem weighted_percentile_discrete {weights : List (V × ℕ)} {q : ℤ} (small : total weights < 10 ^ 7)
    (positive : 1 ≤ q) (whole : q ≤ 100) :
    (¬ (total weights = 9999999 ∧ q = 99) →
        weightedPercentile (given weights) q = percentileDisc (q / 100) (repeated weights)) ∧
      (∀ others, weights.Perm others →
        weightedPercentile (given others) q = weightedPercentile (given weights) q) ∧
      (0 < total weights → (weightedPercentile (given weights) q).isSome = true) ∧
      (∀ value ∈ weightedPercentile (given weights) q, ∃ weight, 0 < weight ∧ (value, weight) ∈ weights) ∧
      ∀ later, q ≤ later → later ≤ 100 → ∀ value ∈ weightedPercentile (given weights) q,
        ∀ higher ∈ weightedPercentile (given weights) later, value ≤ higher := by
  refine ⟨weightedPercentile_eq_disc small positive whole, ?_, ?_, ?_, ?_⟩
  · intro others perm
    exact weightedPercentile_perm small positive whole perm
  · intro some_weight
    exact weightedPercentile_isSome small some_weight positive whole
  · intro value answered
    exact mem_of_weightedPercentile small positive whole answered
  · intro later ordered bound value answered higher also
    exact weightedPercentile_mono small positive ordered bound answered also

section Instances

/-- Nine hundred waits up to a millisecond, ninety up to eight, ten up to sixty-four. -/
def waits : List (ℕ × ℕ) := [(64, 10), (1, 900), (8, 90)]

theorem weighted_percentile_discrete_waits :
    weightedPercentile (given waits) 99 = percentileDisc ((99 : ℤ) / 100) (repeated waits) :=
  (weighted_percentile_discrete (by decide) (by decide) (by decide)).1 (by decide)

/-- A total of 9,999,999: the first value's weight is one short of ninety-nine percent. -/
def oneShort : List (ℕ × ℕ) := [(1, 9899999), (2, 100000)]

theorem mem_oneShort {value weight : ℕ} (member : (value, weight) ∈ oneShort) : value = 1 ∨ value = 2 := by
  simp only [oneShort, List.mem_cons, Prod.mk.injEq, List.not_mem_nil, or_false] at member
  exact member.imp And.left And.left

theorem tolerance_reaches_one_early :
    total oneShort < 10 ^ 7 ∧ weightedPercentile (given oneShort) 99 = some 1 ∧
      percentileDisc ((99 : ℤ) / 100) (repeated oneShort) = some 2 := by
  refine ⟨by decide, ?_, ?_⟩
  · rw [weightedPercentile_iff (by decide) (by decide) (by decide) (by decide)]
    have reaches : threshold 99 (total oneShort) ≤ weightUpTo oneShort 1 := by decide +kernel
    refine ⟨⟨⟨9899999, by decide, List.mem_cons_self⟩, reaches⟩, ?_⟩
    rintro other ⟨⟨weight, -, member⟩, -⟩
    rcases mem_oneShort member with rfl | rfl <;> decide
  · rw [percentileDisc_repeated_iff]
    refine ⟨⟨⟨100000, by decide, by decide⟩, by decide⟩, ?_⟩
    rintro other ⟨⟨weight, -, member⟩, reaches⟩
    rcases mem_oneShort member with rfl | rfl
    · exact absurd reaches (by decide)
    · exact le_rfl

end Instances

end DbaBrain.Lib.WeightedPercentiles
