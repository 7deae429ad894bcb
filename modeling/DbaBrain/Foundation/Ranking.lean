import DbaBrain.Foundation.Selection

/-!
# Taking turns

Rows are numbered within their group by age, and come all first ones before all
second ones.  A group's rows keep their order, a row's turn comes after every
earlier number's, and the first ones come before anything else.
-/

namespace DbaBrain.Foundation.Ranking

open Selection

variable {α κ τ : Type*} [DecidableEq κ] [LinearOrder τ] (group : α → κ) (age : α → τ)

/-- `ROW_NUMBER() OVER (PARTITION BY group ORDER BY age)`, where no two rows have one age. -/
def rowNumber (rows : List α) (row : α) : Nat :=
  (rows.filter fun other => group other = group row && age other < age row).length + 1

/-- A group's rows, oldest first. -/
def line (rows : List α) (key : κ) : List α := sortedBy age (rows.filter fun row => group row = key)

/-- The order of the turns. -/
def turn (rows : List α) (row : α) : Nat ×ₗ τ := toLex (rowNumber group age rows row, age row)

/-- The first `share` rows of each group, turn by turn. -/
def turns (share : Nat) (rows : List α) : List α :=
  sortedBy (turn group age rows) (rows.filter fun row => rowNumber group age rows row ≤ share)

variable {group age} {share : Nat} {rows : List α} {row other : α} {key : κ}

theorem pos_rowNumber : 0 < rowNumber group age rows row := Nat.succ_pos _

theorem mem_line : row ∈ line group age rows key ↔ row ∈ rows ∧ group row = key := by
  unfold line
  rw [mem_sortedBy, List.mem_filter, decide_eq_true_eq]

theorem mem_turns : row ∈ turns group age share rows ↔ row ∈ rows ∧ rowNumber group age rows row ≤ share := by
  unfold turns
  rw [mem_sortedBy, List.mem_filter, decide_eq_true_eq]

omit [LinearOrder τ] in
theorem age_injective (apart : (rows.map age).Nodup) (here : row ∈ rows) (there : other ∈ rows)
    (same : age row = age other) : row = other :=
  List.inj_on_of_nodup_map apart here there same

theorem rowNumber_le (rows : List α) (same : group row = group other) (older : age row ≤ age other) :
    rowNumber group age rows row ≤ rowNumber group age rows other := by
  unfold rowNumber
  refine Nat.succ_le_succ (List.Sublist.length_le ?_)
  refine List.monotone_filter_right rows ?_
  intro third counted
  rw [Bool.and_eq_true, decide_eq_true_eq, decide_eq_true_eq] at counted ⊢
  exact ⟨counted.1.trans same, counted.2.trans_le older⟩

theorem turn_le_iff : turn group age rows row ≤ turn group age rows other ↔
    rowNumber group age rows row < rowNumber group age rows other ∨
      rowNumber group age rows row = rowNumber group age rows other ∧ age row ≤ age other :=
  Prod.Lex.le_iff

theorem age_le_of_turn_le (same : group row = group other)
    (earlier : turn group age rows row ≤ turn group age rows other) : age row ≤ age other := by
  rcases turn_le_iff.mp earlier with below | ⟨-, older⟩
  · by_contra younger
    have back := rowNumber_le rows same.symm (le_of_not_ge younger)
    omega
  · exact older

theorem line_sorted (group : α → κ) (apart : (rows.map age).Nodup) (key : κ) :
    (line group age rows key).Pairwise fun first second => age first < age second := by
  have ages : ((line group age rows key).map age).Nodup := by
    refine ((sortedBy_perm age _).map age).nodup_iff.mpr ?_
    exact apart.sublist (List.filter_sublist.map age)
  rw [List.Nodup, List.pairwise_map] at ages
  exact ((sortedBy_pairwise age _).and ages).imp fun both => lt_of_le_of_ne both.1 both.2

variable {front back : List α} {limit : Nat}

/-- The row in front of which a group has so many has the next number. -/
theorem rowNumber_of_split (apart : (rows.map age).Nodup) (split : line group age rows key = front ++ row :: back) :
    rowNumber group age rows row = front.length + 1 := by
  have sorted := line_sorted group apart key
  have member : row ∈ line group age rows key := by
    rw [split]
    simp
  obtain ⟨-, own⟩ := mem_line.mp member
  have older : (line group age rows key).filter (fun other => age other < age row) = front := by
    rw [split] at sorted ⊢
    obtain ⟨-, later, before⟩ := List.pairwise_append.mp sorted
    obtain ⟨behind, -⟩ := List.pairwise_cons.mp later
    rw [List.filter_append, List.filter_cons_of_neg (by simp)]
    have kept : front.filter (fun other => age other < age row) = front := by
      refine List.filter_eq_self.mpr ?_
      intro other among
      exact decide_eq_true (before other among row List.mem_cons_self)
    have dropped : back.filter (fun other => age other < age row) = [] := by
      refine List.filter_eq_nil_iff.mpr ?_
      intro other among counted
      exact absurd (of_decide_eq_true counted) (behind other among).not_gt
    rw [kept, dropped, List.append_nil]
  have counted := ((sortedBy_perm age (rows.filter fun other => group other = key)).filter
    fun other => age other < age row).length_eq
  unfold rowNumber
  rw [← older, own]
  unfold line
  rw [counted, List.filter_filter]
  congr 3
  funext other
  exact Bool.and_comm _ _

/-- A row of a group is among the first ones exactly when its number is. -/
theorem mem_take_line (apart : (rows.map age).Nodup) :
    row ∈ (line group age rows key).take share ↔
      row ∈ rows ∧ group row = key ∧ rowNumber group age rows row ≤ share := by
  constructor
  · intro member
    obtain ⟨here, own⟩ := mem_line.mp (List.mem_of_mem_take member)
    refine ⟨here, own, ?_⟩
    obtain ⟨front, back, split⟩ := List.append_of_mem member
    have whole : line group age rows key = front ++ row :: (back ++ (line group age rows key).drop share) := by
      have joined := List.take_append_drop share (line group age rows key)
      rw [split, List.append_assoc, List.cons_append] at joined
      exact joined.symm
    rw [rowNumber_of_split apart whole]
    have short := List.length_take_le share (line group age rows key)
    rw [split, List.length_append, List.length_cons] at short
    omega
  · rintro ⟨here, own, low⟩
    have among : row ∈ line group age rows key := mem_line.mpr ⟨here, own⟩
    obtain ⟨front, back, split⟩ := List.append_of_mem among
    rw [rowNumber_of_split apart split] at low
    rw [split, List.take_append, List.mem_append]
    right
    obtain ⟨more, enough⟩ : ∃ more, share - front.length = more + 1 := ⟨share - front.length - 1, by omega⟩
    rw [enough, List.take_succ_cons]
    exact List.mem_cons_self

/-- Each group's turns are its oldest rows, in order. -/
theorem filter_turns (apart : (rows.map age).Nodup) (key : κ) :
    ((turns group age share rows).filter fun row => group row = key) = (line group age rows key).take share := by
  have once : rows.Nodup := apart.of_map age
  have turns_once : (turns group age share rows).Nodup := by
    refine (sortedBy_perm (turn group age rows) _).nodup_iff.mpr ?_
    exact once.filter _
  have line_once : (line group age rows key).Nodup := (sortedBy_perm age _).nodup_iff.mpr (once.filter _)
  have perm : ((turns group age share rows).filter fun row => group row = key).Perm
      ((line group age rows key).take share) := by
    refine (List.perm_ext_iff_of_nodup (turns_once.filter _) (line_once.sublist (List.take_sublist _ _))).mpr ?_
    intro row
    rw [List.mem_filter, mem_turns, mem_take_line apart, decide_eq_true_eq]
    constructor
    · rintro ⟨⟨here, low⟩, own⟩
      exact ⟨here, own, low⟩
    · rintro ⟨here, own, low⟩
      exact ⟨⟨here, low⟩, own⟩
  have ages : (((turns group age share rows).filter fun row => group row = key).map age).Nodup := by
    refine (List.nodup_map_iff_inj_on (turns_once.filter _)).mpr ?_
    intro first member second present same
    exact age_injective apart (mem_turns.mp (List.mem_filter.mp member).1).1
      (mem_turns.mp (List.mem_filter.mp present).1).1 same
  have sorted := (sortedBy_pairwise (turn group age rows)
    (rows.filter fun row => rowNumber group age rows row ≤ share)).filter fun row => group row = key
  refine eq_of_sorted_perm perm ages (sorted.imp_of_mem ?_)
    (((line_sorted group apart key).imp le_of_lt).sublist (List.take_sublist _ _))
  intro first second member present earlier
  have here := (List.mem_filter.mp member).2
  have there := (List.mem_filter.mp present).2
  rw [decide_eq_true_eq] at here there
  exact age_le_of_turn_le (here.trans there.symm) earlier

/-- However few turns are taken, each group's are its oldest rows, and no more than its share. -/
theorem filter_take_turns_prefix (apart : (rows.map age).Nodup) (share limit : Nat) (key : κ) :
    (((turns group age share rows).take limit).filter fun row => group row = key) <+: line group age rows key ∧
      (((turns group age share rows).take limit).filter fun row => group row = key).length ≤ share := by
  have cut : (((turns group age share rows).take limit).filter fun row => group row = key) <+:
      (line group age rows key).take share := by
    rw [← filter_turns apart key]
    exact (List.take_prefix limit _).filter _
  exact ⟨cut.trans (List.take_prefix share _), cut.length_le.trans (List.length_take_le share _)⟩

theorem earlier_turn_taken (split : (turns group age share rows).take limit = front ++ row :: back)
    (there : other ∈ turns group age share rows) (earlier : turn group age rows other < turn group age rows row) :
    other ∈ front := by
  have whole : turns group age share rows = front ++ row :: (back ++ (turns group age share rows).drop limit) := by
    have joined := List.take_append_drop limit (turns group age share rows)
    rw [split, List.append_assoc, List.cons_append] at joined
    exact joined.symm
  have sorted := sortedBy_pairwise (turn group age rows) (rows.filter fun row => rowNumber group age rows row ≤ share)
  change (turns group age share rows).Pairwise _ at sorted
  rw [whole] at sorted there
  obtain ⟨-, later, -⟩ := List.pairwise_append.mp sorted
  obtain ⟨behind, -⟩ := List.pairwise_cons.mp later
  rcases List.mem_append.mp there with before | after
  · exact before
  · rcases List.mem_cons.mp after with rfl | further
    · exact absurd earlier (lt_irrefl _)
    · exact absurd earlier (behind other further).not_gt

/-- A group's `k`-th row is taken only after every other group's `j`-th one, for every `j < k`. -/
theorem lower_number_first (split : (turns group age share rows).take limit = front ++ row :: back)
    (there : other ∈ rows) (lower : rowNumber group age rows other < rowNumber group age rows row) : other ∈ front := by
  have member : row ∈ turns group age share rows := by
    refine List.mem_of_mem_take (i := limit) ?_
    rw [split]
    simp
  refine earlier_turn_taken split ?_ ?_
  · exact mem_turns.mpr ⟨there, lower.le.trans (mem_turns.mp member).2⟩
  · exact Prod.Lex.lt_iff.mpr (.inl lower)

theorem not_older_of_first (first : rowNumber group age rows row = 1) (there : other ∈ rows)
    (same : group other = group row) : ¬age other < age row := by
  intro older
  have none_counted : rows.filter (fun third => group third = group row && age third < age row) = [] :=
    List.length_eq_zero_iff.mp (Nat.succ.inj first)
  have counted := List.filter_eq_nil_iff.mp none_counted other there
  rw [Bool.and_eq_true, decide_eq_true_eq, decide_eq_true_eq] at counted
  exact counted ⟨same, older⟩

theorem first_unique (apart : (rows.map age).Nodup) (here : row ∈ rows) (there : other ∈ rows)
    (first : rowNumber group age rows row = 1) (again : rowNumber group age rows other = 1)
    (same : group row = group other) : row = other := by
  refine age_injective apart here there (le_antisymm ?_ ?_)
  · exact le_of_not_gt (not_older_of_first first there same.symm)
  · exact le_of_not_gt (not_older_of_first again here same)

theorem exists_first (group : α → κ) (apart : (rows.map age).Nodup) (here : row ∈ rows) :
    ∃ first ∈ rows, group first = group row ∧ rowNumber group age rows first = 1 := by
  have some_row : line group age rows (group row) ≠ [] := List.ne_nil_of_mem (mem_line.mpr ⟨here, rfl⟩)
  obtain ⟨first, rest, split⟩ := List.exists_cons_of_ne_nil some_row
  have member : first ∈ line group age rows (group row) := by
    rw [split]
    exact List.mem_cons_self
  obtain ⟨among, own⟩ := mem_line.mp member
  have number : rowNumber group age rows first = ([] : List α).length + 1 := rowNumber_of_split apart split
  exact ⟨first, among, own, number⟩

theorem first_taken (apart : (rows.map age).Nodup) (positive : 0 < share)
    (enough : (rows.map group).dedup.length ≤ limit) (here : row ∈ rows) (first : rowNumber group age rows row = 1) :
    row ∈ (turns group age share rows).take limit := by
  have member : row ∈ turns group age share rows := mem_turns.mpr ⟨here, first.le.trans positive⟩
  obtain ⟨front, back, split⟩ := List.append_of_mem member
  have sorted := sortedBy_pairwise (turn group age rows) (rows.filter fun row => rowNumber group age rows row ≤ share)
  change (turns group age share rows).Pairwise _ at sorted
  have once : (turns group age share rows).Nodup := by
    refine (sortedBy_perm (turn group age rows) _).nodup_iff.mpr ?_
    exact (apart.of_map age).filter _
  have firsts : ∀ x ∈ front ++ [row], x ∈ rows ∧ rowNumber group age rows x = 1 := by
    intro x among
    rcases List.mem_append.mp among with before | last
    · have there : x ∈ turns group age share rows := by
        rw [split]
        exact List.mem_append_left _ before
      rw [split] at sorted
      have earlier := (List.pairwise_append.mp sorted).2.2 x before row List.mem_cons_self
      refine ⟨(mem_turns.mp there).1, ?_⟩
      have above : 0 < rowNumber group age rows x := pos_rowNumber
      rcases turn_le_iff.mp earlier with below | ⟨same, -⟩
      · omega
      · exact same.trans first
    · rw [List.mem_singleton.mp last]
      exact ⟨here, first⟩
  have served : ((front ++ [row]).map group).Nodup := by
    have taken_once : (front ++ [row]).Nodup := by
      refine once.sublist ?_
      rw [split]
      exact List.Sublist.append_left (List.singleton_sublist.mpr List.mem_cons_self) front
    refine (List.nodup_map_iff_inj_on taken_once).mpr ?_
    intro x among y present same
    exact first_unique apart (firsts x among).1 (firsts y present).1 (firsts x among).2 (firsts y present).2 same
  have fits : (front ++ [row]).length ≤ limit := by
    have counted : ((front ++ [row]).map group).length ≤ (rows.map group).dedup.length := by
      refine (served.subperm ?_).length_le
      intro key among
      obtain ⟨x, present, rfl⟩ := List.mem_map.mp among
      exact List.mem_dedup.mpr (List.mem_map_of_mem (firsts x present).1)
    rw [List.length_map] at counted
    exact counted.trans enough
  have taken : (front ++ [row]) <+: (turns group age share rows).take limit := by
    refine List.prefix_take_iff.mpr ⟨?_, fits⟩
    rw [split, List.append_cons front row back]
    exact List.prefix_append _ _
  exact taken.subset (List.mem_append_right _ (List.mem_singleton_self row))

end DbaBrain.Foundation.Ranking
