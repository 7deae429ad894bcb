import DbaBrain.Db.Backfill

/-!
# One table of a backfill

What a table's transaction does with its rows, told by what the rows link to:
which of them are refused, which are left out, which keys are mapped, and that
neither the number of the apply nor a map no row looks into matters.  A table
that was carried has nothing left to carry when nothing is mapped.
-/

namespace DbaBrain.Db.Backfill

open DbaBrain.Foundation.Sql

/-! ## One row -/

section Rows

variable {readInt : String → Option Int} {spec : TableSpec} {mappings further : Mappings} {nullable : List String}
  {row : Row} {columns : List String}

/-- Every link of the row that is not NULL is read as a whole number. -/
def Readable (readInt : String → Option Int) (spec : TableSpec) (columns : List String) (row : Row) : Prop :=
  ∀ name ∈ columns, spec.links.lookup name ≠ none → row.cells name ≠ .null → intOf readInt (row.cells name) ≠ none

/-- A column's value as it crosses. -/
def crossing (readInt : String → Option Int) (spec : TableSpec) (mappings : Mappings) (row : Row) (name : String) :
    Value :=
  match spec.links.lookup name with
  | none => row.cells name
  | some parent =>
      match (intOf readInt (row.cells name)).bind (mappings.get parent) with
      | none => .null
      | some replacement => .integer replacement

variable {before : List Value} {dropped : Nat}

theorem rowValuesFrom_of_readable (readable : Readable readInt spec columns row) :
    rowValuesFrom readInt spec mappings nullable row before dropped columns ≠ none := by
  induction columns generalizing before dropped with
  | nil => simp [rowValuesFrom]
  | cons name rest ih =>
    have others : ∀ {before dropped}, rowValuesFrom readInt spec mappings nullable row before dropped rest ≠ none :=
      ih fun name member => readable name (List.mem_cons_of_mem _ member)
    unfold rowValuesFrom
    split
    · exact others
    · rename_i parent link
      split
      · exact others
      · rename_i present
        split
        · rename_i unread
          exact absurd unread (readable name List.mem_cons_self (by simp [link]) present)
        · split
          · exact others
          · split
            · simp
            · exact others

variable {found : RowValues}

/-- A table has no more than one link, so a row that is not refused has its link read even where it is left out. -/
theorem readable_of_rowValuesFrom
    (single : ∀ name other, spec.links.lookup name ≠ none → spec.links.lookup other ≠ none → name = other)
    (read : rowValuesFrom readInt spec mappings nullable row before dropped columns = some found) :
    Readable readInt spec columns row := by
  induction columns generalizing before dropped with
  | nil => exact fun name member => nomatch member
  | cons head rest ih =>
    intro name member link present
    unfold rowValuesFrom at read
    cases own : spec.links.lookup head with
    | none =>
      rw [own] at read
      rcases List.mem_cons.mp member with rfl | later
      · exact absurd own link
      · exact ih read name later link present
    | some parent =>
      obtain rfl := single name head link (by simp [own])
      rw [own] at read
      dsimp only at read
      rw [if_neg present] at read
      intro unread
      simp [unread] at read

theorem rowValuesFrom_of_mapped
    (mapped : ∀ name ∈ columns, ∀ parent, spec.links.lookup name = some parent → row.cells name ≠ .null →
      ∃ key replacement, intOf readInt (row.cells name) = some key ∧ mappings.get parent key = some replacement) :
    rowValuesFrom readInt spec mappings nullable row before dropped columns =
      some ⟨before ++ columns.map (crossing readInt spec mappings row), dropped, true⟩ := by
  induction columns generalizing before with
  | nil => rw [rowValuesFrom, List.map_nil, List.append_nil]
  | cons name rest ih =>
    have others : ∀ before, rowValuesFrom readInt spec mappings nullable row before dropped rest =
        some ⟨before ++ rest.map (crossing readInt spec mappings row), dropped, true⟩ := fun _ =>
      ih fun name member => mapped name (List.mem_cons_of_mem _ member)
    have step : ∀ value, value = crossing readInt spec mappings row name →
        rowValuesFrom readInt spec mappings nullable row (before ++ [value]) dropped rest =
          some ⟨before ++ (name :: rest).map (crossing readInt spec mappings row), dropped, true⟩ := by
      rintro _ rfl
      rw [others, List.map_cons, List.append_assoc, List.singleton_append]
    unfold rowValuesFrom
    cases link : spec.links.lookup name with
    | none => exact step _ (by simp [crossing, link])
    | some parent =>
      dsimp only
      by_cases missing : row.cells name = .null
      · rw [if_pos missing]
        exact step _ (by simp [crossing, link, missing, intOf])
      · obtain ⟨key, replacement, names, found⟩ := mapped name List.mem_cons_self parent link missing
        rw [if_neg missing, names]
        dsimp only
        rw [found]
        exact step _ (by simp [crossing, link, names, found])

theorem rowValuesFrom_unmapped {before' : List Value} {dropped' : Nat}
    (unmapped : ∀ name parent key, spec.links.lookup name = some parent → further.get parent key = none)
    (read : rowValuesFrom readInt spec mappings nullable row before dropped columns = some found)
    (leftOut : found.carryable = false) :
    ∃ again, rowValuesFrom readInt spec further nullable row before' dropped' columns = some again ∧
      again.carryable = false := by
  induction columns generalizing before dropped before' dropped' with
  | nil =>
    obtain rfl := Option.some.inj read
    cases leftOut
  | cons name rest ih =>
    unfold rowValuesFrom at read ⊢
    cases link : spec.links.lookup name with
    | none =>
      rw [link] at read
      exact ih read
    | some parent =>
      rw [link] at read
      dsimp only at read ⊢
      by_cases missing : row.cells name = .null
      · rw [if_pos missing] at read ⊢
        exact ih read
      rw [if_neg missing] at read ⊢
      cases names : intOf readInt (row.cells name) with
      | none => simp [names] at read
      | some key =>
        rw [names] at read
        dsimp only at read ⊢
        rw [unmapped name parent key link]
        dsimp only
        by_cases required : name ∉ nullable
        · rw [if_pos required]
          exact ⟨_, rfl, rfl⟩
        rw [if_neg required]
        cases carried : mappings.get parent key with
        | some replacement =>
          rw [carried] at read
          exact ih read
        | none =>
          rw [carried] at read
          dsimp only at read
          rw [if_neg required] at read
          exact ih read

/-- A row crosses alike under two maps that agree on what it links to. -/
theorem rowValuesFrom_congr (agree : ∀ name ∈ columns, ∀ parent key, spec.links.lookup name = some parent →
      intOf readInt (row.cells name) = some key → mappings.get parent key = further.get parent key) :
    rowValuesFrom readInt spec mappings nullable row before dropped columns =
      rowValuesFrom readInt spec further nullable row before dropped columns := by
  induction columns generalizing before dropped with
  | nil => rw [rowValuesFrom, rowValuesFrom]
  | cons name rest ih =>
    have others : ∀ before dropped, rowValuesFrom readInt spec mappings nullable row before dropped rest =
        rowValuesFrom readInt spec further nullable row before dropped rest := fun _ _ =>
      ih fun name member => agree name (List.mem_cons_of_mem _ member)
    unfold rowValuesFrom
    cases link : spec.links.lookup name with
    | none => exact others _ _
    | some parent =>
      dsimp only
      by_cases missing : row.cells name = .null
      · rw [if_pos missing, if_pos missing]
        exact others _ _
      rw [if_neg missing, if_neg missing]
      cases names : intOf readInt (row.cells name) with
      | none => rfl
      | some key =>
        dsimp only
        rw [agree name List.mem_cons_self parent key link names]
        simp only [others]

theorem cellsOf_map {defaults : String → Value} {cell : String → Value} {name : String} (member : name ∈ columns) :
    cellsOf defaults columns (columns.map cell) name = cell name := by
  induction columns with
  | nil => cases member
  | cons head rest ih =>
    by_cases same : name = head
    · subst same
      simp [cellsOf]
    · have later := ih (List.mem_of_ne_of_mem same member)
      simpa [cellsOf, List.lookup_cons, beq_false_of_ne same] using later

end Rows

/-! ## One table -/

section Loops

variable {readInt : String → Option Int} {run : Nat} {spec : TableSpec} {mappings further : Mappings}
  {columns : List String} {row : Row} {rows : List Row} {carrying after : Carrying}

/-- What the loop over a table's rows leaves as it is, and what it only adds to. -/
structure Further (carrying after : Carrying) : Prop where
  nullable : after.table.nullable = carrying.table.nullable
  defaults : after.table.defaults = carrying.table.defaults
  columns : after.table.columns = carrying.table.columns
  rows : carrying.table.rows.IsPrefix after.table.rows
  mapping : ∀ key, carrying.mapping.lookup key ≠ none → after.mapping.lookup key ≠ none

theorem Further.refl (carrying : Carrying) : Further carrying carrying :=
  ⟨rfl, rfl, rfl, List.prefix_refl _, fun _ found => found⟩

theorem Further.trans {next : Carrying} (first : Further carrying next) (second : Further next after) :
    Further carrying after :=
  ⟨second.nullable.trans first.nullable, second.defaults.trans first.defaults, second.columns.trans first.columns,
    first.rows.trans second.rows, fun key found => second.mapping key (first.mapping key found)⟩

variable {found : RowValues} {key : Int} {run' : Nat} {one other : Carrying} {link : String × String}

theorem step_of_left_out (read : rowValues readInt row columns spec mappings carrying.table.nullable = some found)
    (leftOut : found.carryable = false) : Carrying.step readInt run spec mappings columns carrying row =
      some { carrying with skipped := carrying.skipped + 1 } := by
  unfold Carrying.step
  rw [read]
  dsimp only
  rw [if_pos leftOut]

/-- The row as it is inserted under the table's next key. -/
def landed (run : Nat) (columns : List String) (table : Table) (row : Row) (values : List Value) : Stored :=
  ⟨⟨table.nextKey, row.time, cellsOf table.defaults columns values⟩, some ⟨run, row.key⟩⟩

theorem step_of_carried (read : rowValues readInt row columns spec mappings carrying.table.nullable = some found)
    (carried : found.carryable = true)
    (step : Carrying.step readInt run spec mappings columns carrying row = some after) :
    after.table.rows = carrying.table.rows ++ [landed run columns carrying.table row found.values] ∧
      after.mapping = if spec.mapped then (row.key, carrying.table.nextKey) :: carrying.mapping else carrying.mapping := by
  unfold Carrying.step at step
  rw [read] at step
  dsimp only at step
  rw [if_neg (by simp [carried])] at step
  obtain rfl := Option.some.inj step
  exact ⟨rfl, rfl⟩

theorem further_step (step : Carrying.step readInt run spec mappings columns carrying row = some after) :
    Further carrying after := by
  unfold Carrying.step at step
  cases read : rowValues readInt row columns spec mappings carrying.table.nullable with
  | none => simp [read] at step
  | some found =>
    rw [read] at step
    dsimp only at step
    split at step
    · obtain rfl := Option.some.inj step
      exact ⟨rfl, rfl, rfl, List.prefix_refl _, fun _ found => found⟩
    · obtain rfl := Option.some.inj step
      refine ⟨rfl, rfl, rfl, List.prefix_append _ _, fun key found => ?_⟩
      dsimp only
      split
      · rw [List.lookup_cons]
        cases key == row.key with
        | true => simp
        | false => exact found
      · exact found

theorem further_foldlM (ran : rows.foldlM (Carrying.step readInt run spec mappings columns) carrying = some after) :
    Further carrying after := by
  induction rows generalizing carrying with
  | nil =>
    obtain rfl := Option.some.inj ran
    exact Further.refl carrying
  | cons row rest ih =>
    rw [List.foldlM_cons] at ran
    obtain ⟨next, step, others⟩ := Option.bind_eq_some_iff.mp ran
    exact (further_step step).trans (ih others)

theorem exists_step (ran : rows.foldlM (Carrying.step readInt run spec mappings columns) carrying = some after)
    (member : row ∈ rows) : ∃ before next, Further carrying before ∧ Further next after ∧
      Carrying.step readInt run spec mappings columns before row = some next := by
  induction rows generalizing carrying with
  | nil => cases member
  | cons head rest ih =>
    rw [List.foldlM_cons] at ran
    obtain ⟨next, step, others⟩ := Option.bind_eq_some_iff.mp ran
    rcases List.mem_cons.mp member with rfl | later
    · exact ⟨carrying, next, Further.refl carrying, further_foldlM others, step⟩
    · obtain ⟨before, reached, first, last, own⟩ := ih others later
      exact ⟨before, reached, (further_step step).trans first, last, own⟩

theorem left_out_or_landed (ran : rows.foldlM (Carrying.step readInt run spec mappings columns) carrying = some after)
    (member : row ∈ rows) :
    (∃ found, rowValues readInt row columns spec mappings carrying.table.nullable = some found ∧
      found.carryable = false) ∨ ∃ stored ∈ after.table.rows, stored.row.time = row.time := by
  obtain ⟨before, next, first, last, step⟩ := exists_step ran member
  rw [← first.nullable]
  cases read : rowValues readInt row columns spec mappings before.table.nullable with
  | none => simp [Carrying.step, read] at step
  | some found =>
    cases carried : found.carryable with
    | false => exact Or.inl ⟨found, rfl, carried⟩
    | true =>
      have lands := (step_of_carried read carried step).1
      refine Or.inr ⟨_, last.rows.subset (lands ▸ List.mem_append_right _ (List.mem_singleton_self _)), rfl⟩

theorem foldlM_left_out (leftOut : ∀ row ∈ rows, ∃ found,
      rowValues readInt row columns spec mappings carrying.table.nullable = some found ∧ found.carryable = false) :
    ∃ skipped, rows.foldlM (Carrying.step readInt run spec mappings columns) carrying =
      some { carrying with skipped := skipped } := by
  induction rows generalizing carrying with
  | nil => exact ⟨carrying.skipped, rfl⟩
  | cons row rest ih =>
    obtain ⟨⟨found, read, left⟩, others⟩ := List.forall_mem_cons.mp leftOut
    rw [List.foldlM_cons, step_of_left_out read left]
    exact ih others

theorem foldlM_ne_none_iff (single : ∀ name other, spec.links.lookup name ≠ none → spec.links.lookup other ≠ none →
      name = other) :
    rows.foldlM (Carrying.step readInt run spec mappings columns) carrying ≠ none ↔
      ∀ row ∈ rows, Readable readInt spec columns row := by
  induction rows generalizing carrying with
  | nil => simp
  | cons row rest ih =>
    rw [List.foldlM_cons, List.forall_mem_cons]
    cases read : rowValues readInt row columns spec mappings carrying.table.nullable with
    | none =>
      have refused : Carrying.step readInt run spec mappings columns carrying row = none := by
        rw [Carrying.step, read]
      rw [refused]
      refine iff_of_false (fun some_left => some_left rfl) ?_
      rintro ⟨readable, -⟩
      exact rowValuesFrom_of_readable readable read
    | some found =>
      have readable := readable_of_rowValuesFrom single read
      obtain ⟨next, step⟩ : ∃ next, Carrying.step readInt run spec mappings columns carrying row = some next := by
        rw [Carrying.step, read]
        dsimp only
        split
        · exact ⟨_, rfl⟩
        · exact ⟨_, rfl⟩
      rw [step]
      exact ih.trans (and_iff_right readable).symm

/-- The keys that are mapped are those of the table's rows. -/
theorem mapped_key (ran : rows.foldlM (Carrying.step readInt run spec mappings columns) carrying = some after)
    (found : after.mapping.lookup key ≠ none) : carrying.mapping.lookup key ≠ none ∨ ∃ row ∈ rows, row.key = key := by
  induction rows generalizing carrying with
  | nil =>
    obtain rfl := Option.some.inj ran
    exact Or.inl found
  | cons row rest ih =>
    rw [List.foldlM_cons] at ran
    obtain ⟨next, step, others⟩ := Option.bind_eq_some_iff.mp ran
    rcases ih others with before | ⟨later, member, same⟩
    · by_cases own : row.key = key
      · exact Or.inr ⟨row, List.mem_cons_self, own⟩
      refine Or.inl ?_
      cases read : rowValues readInt row columns spec mappings carrying.table.nullable with
      | none => simp [Carrying.step, read] at step
      | some values =>
        cases carried : values.carryable with
        | false =>
          rw [step_of_left_out read carried] at step
          obtain rfl := Option.some.inj step
          exact before
        | true =>
          rw [(step_of_carried read carried step).2] at before
          split at before
          · rwa [List.lookup_cons, beq_false_of_ne (Ne.symm own)] at before
          · exact before
    · exact Or.inr ⟨later, List.mem_cons_of_mem _ member, same⟩

/-- A parent links to nothing, so each of its rows is carried and its key is mapped. -/
theorem mapped_of_parent (ran : rows.foldlM (Carrying.step readInt run spec mappings columns) carrying = some after)
    (mapped : spec.mapped = true) (parentless : spec.links = []) (member : row ∈ rows) :
    after.mapping.lookup row.key ≠ none := by
  obtain ⟨before, next, -, last, step⟩ := exists_step ran member
  have read : rowValues readInt row columns spec mappings before.table.nullable = some _ :=
    rowValuesFrom_of_mapped fun name _ parent link => by simp [parentless] at link
  apply last.mapping
  rw [(step_of_carried read rfl step).2, if_pos mapped, List.lookup_cons, beq_self_eq_true]
  simp

/-! ### Which apply it was -/

/-- What a table holds, whoever put it there. -/
def Table.forget (table : Table) : Before :=
  ⟨table.columns, table.nullable, table.defaults, table.rows.map Stored.row, table.nextKey, table.links_default⟩

structure Alike (one other : Carrying) : Prop where
  table : one.table.forget = other.table.forget
  mapping : one.mapping = other.mapping

theorem alike_step (alike : Alike one other) (agree : rowValues readInt row columns spec mappings one.table.nullable =
      rowValues readInt row columns spec further one.table.nullable) :
    Option.Rel Alike (Carrying.step readInt run spec mappings columns one row)
      (Carrying.step readInt run' spec further columns other row) := by
  have nullable : one.table.nullable = other.table.nullable := congrArg Before.nullable alike.table
  have defaults : one.table.defaults = other.table.defaults := congrArg Before.defaults alike.table
  have nextKey : one.table.nextKey = other.table.nextKey := congrArg Before.nextKey alike.table
  have rows : one.table.rows.map Stored.row = other.table.rows.map Stored.row := congrArg Before.rows alike.table
  have names : one.table.columns = other.table.columns := congrArg Before.columns alike.table
  unfold Carrying.step
  rw [agree, nullable]
  cases read : rowValues readInt row columns spec further other.table.nullable with
  | none => exact Option.Rel.none
  | some found =>
    dsimp only
    split
    · exact Option.Rel.some ⟨alike.table, alike.mapping⟩
    · refine Option.Rel.some ⟨?_, ?_⟩
      · simp only [Table.insert, Table.forget, Before.mk.injEq, List.map_append, List.map_cons, List.map_nil]
        exact ⟨names, nullable, defaults, by rw [rows, nextKey, defaults], by rw [nextKey]⟩
      · simp only [Table.insert, nextKey, alike.mapping]

theorem alike_foldlM (alike : Alike one other)
    (agree : ∀ row ∈ rows, ∀ nullable, rowValues readInt row columns spec mappings nullable =
      rowValues readInt row columns spec further nullable) :
    Option.Rel Alike (rows.foldlM (Carrying.step readInt run spec mappings columns) one)
      (rows.foldlM (Carrying.step readInt run' spec further columns) other) := by
  induction rows generalizing one other with
  | nil => exact Option.Rel.some alike
  | cons row rest ih =>
    obtain ⟨head, tail⟩ := List.forall_mem_cons.mp agree
    rw [List.foldlM_cons, List.foldlM_cons]
    have step : Option.Rel Alike (Carrying.step readInt run spec mappings columns one row)
        (Carrying.step readInt run' spec further columns other row) := alike_step alike (head one.table.nullable)
    cases first : Carrying.step readInt run spec mappings columns one row with
    | none =>
      rw [first] at step
      generalize Carrying.step readInt run' spec further columns other row = second at step
      cases step
      exact Option.Rel.none
    | some next =>
      rw [first] at step
      generalize Carrying.step readInt run' spec further columns other row = second at step
      cases step with
      | some alike => exact ih alike tail

/-! ### How many rows link to a parent -/

def linking (name : String) (table : Table) : Nat :=
  table.rows.countP fun stored => stored.row.cells name ≠ .null

/-- A row whose link is mapped keeps it. -/
theorem linking_lt {replacement : Int} {sourceRows : List Row}
    (ran : sourceRows.foldlM (Carrying.step readInt run spec mappings columns) carrying = some after)
    (only : ∀ name ∈ columns, ∀ parent, spec.links.lookup name = some parent → (name, parent) = link)
    (shared : link.1 ∈ columns) (linked : spec.links.lookup link.1 = some link.2) (member : row ∈ sourceRows)
    (names : intOf readInt (row.cells link.1) = some key) (found : mappings.get link.2 key = some replacement) :
    linking link.1 carrying.table < linking link.1 after.table := by
  obtain ⟨before, next, first, last, step⟩ := exists_step ran member
  have read : rowValues readInt row columns spec mappings before.table.nullable = some _ :=
    rowValuesFrom_of_mapped fun name inColumns parent own _ => by
      obtain rfl := only name inColumns parent own
      exact ⟨key, replacement, names, found⟩
  have lands := (step_of_carried read rfl step).1
  have cell : cellsOf before.table.defaults columns (columns.map (crossing readInt spec mappings row)) link.1 =
      .integer replacement := by
    rw [cellsOf_map shared]
    simp [crossing, linked, names, found]
  calc linking link.1 carrying.table
      ≤ linking link.1 before.table := first.rows.sublist.countP_le
    _ < linking link.1 next.table := by
        rw [linking, linking, lands, List.countP_append, List.countP_singleton, if_pos (by simp [landed, cell])]
        exact Nat.lt_succ_self _
    _ ≤ linking link.1 after.table := last.rows.sublist.countP_le

/-- Where nothing is mapped no row that is carried keeps a link. -/
theorem linking_eq {table : Table} (known : spec ∈ tables) (mentioned : link ∈ spec.links)
    (unmapped : ∀ key, mappings.get link.2 key = none)
    (ran : rows.foldlM (Carrying.step readInt run spec mappings columns) ⟨table, [], 0, 0⟩ = some after) :
    linking link.1 after.table = linking link.1 table := by
  obtain ⟨added, split, -, copies⟩ := (loop_start.foldlM known ran).added
  rw [linking, split, List.countP_append, linking, Nat.add_eq_left, List.countP_eq_zero]
  intro stored member
  obtain ⟨row, -, copy⟩ := copies stored member
  rcases copy.links link mentioned with null | ⟨old, new, -, mapped, -⟩
  · simp [null]
  · rw [unmapped old] at mapped
    cases mapped

end Loops

/-! ### The transaction -/

section Transactions

variable {readInt : String → Option Int} {source : Source} {run : Nat} {spec : TableSpec}
  {mappings further : Mappings} {held after : Option Table} {mapping : List (Int × Int)}

/-- What a table's transaction leaves in it, and its map. -/
def carriedBy (readInt : String → Option Int) (run : Nat) (source : Source) (spec : TableSpec) (mappings : Mappings)
    (held : Option Table) : Option (Option Table × List (Int × Int)) :=
  match source spec.name, held with
  | some sourceTable, some table =>
      ((newerRows sourceTable table.watermark).foldlM
        (Carrying.step readInt run spec mappings (sharedColumns sourceTable table)) ⟨table, [], 0, 0⟩).map
          fun carried => (some carried.table, carried.mapping)
  | _, _ => some (held, [])

/-- The maps an apply goes on with. -/
def Mappings.kept (mappings : Mappings) (spec : TableSpec) (mapping : List (Int × Int)) : Mappings :=
  if spec.mapped then (spec.name, mapping) :: mappings else mappings

variable {table : Table}
variable {sourceTable : SourceTable} {progress : Progress} {store : Store} {run' : Nat}

theorem carriedBy_of_present (origin : source spec.name = some sourceTable) :
    carriedBy readInt run source spec mappings (some table) =
      ((newerRows sourceTable table.watermark).foldlM
        (Carrying.step readInt run spec mappings (sharedColumns sourceTable table)) ⟨table, [], 0, 0⟩).map
          fun carried => (some carried.table, carried.mapping) := by
  unfold carriedBy
  rw [origin]

theorem carriedBy_of_absent
    (absent : ∀ sourceTable table, source spec.name = some sourceTable → held = some table → False) :
    carriedBy readInt run source spec mappings held = some (held, []) := by
  unfold carriedBy
  split
  · rename_i sourceTable table origin
    exact (absent sourceTable table origin rfl).elim
  · rfl

theorem carryTable_none :
    carryTable readInt run source spec progress store = none ↔
      carriedBy readInt run source spec progress.mappings (store spec.name) = none := by
  unfold carryTable
  split
  · rename_i sourceTable table origin present
    rw [present, carriedBy_of_present origin]
    dsimp only
    rw [Option.map_eq_none_iff]
    split
    · rename_i refused
      exact iff_of_true rfl refused
    · rename_i ran
      exact iff_of_false (by simp) (by simp [ran])
  · rename_i absent
    rw [carriedBy_of_absent absent]
    exact iff_of_false (by simp) (by simp)

theorem carryTable_some {after : Progress} {later : Store}
    (committed : carryTable readInt run source spec progress store = some (after, later)) :
    ∃ held mapping, carriedBy readInt run source spec progress.mappings (store spec.name) = some (held, mapping) ∧
      later = Function.update store spec.name held ∧ after.mappings = progress.mappings.kept spec mapping ∧
      after.inserted.length = progress.inserted.length + 1 := by
  unfold carryTable at committed
  split at committed
  · rename_i sourceTable table origin present
    rw [present, carriedBy_of_present origin]
    dsimp only at committed
    split at committed
    · cases committed
    · rename_i carried ran
      cases committed
      refine ⟨some carried.table, carried.mapping, ?_, rfl, rfl, rfl⟩
      rw [ran]
      rfl
  · rename_i absent
    cases committed
    refine ⟨store spec.name, [], carriedBy_of_absent absent, (Function.update_eq_self _ _).symm, rfl, rfl⟩

/-- No row of the table's that is to be carried has a link that cannot be read. -/
def ReadableRows (readInt : String → Option Int) (source : Source) (spec : TableSpec) (held : Option Table) : Prop :=
  ∀ sourceTable table, source spec.name = some sourceTable → held = some table →
    ∀ row ∈ newerRows sourceTable table.watermark, Readable readInt spec (sharedColumns sourceTable table) row

theorem single_link : ∀ spec ∈ tables, ∀ link ∈ spec.links, ∀ other ∈ spec.links, link = other := by decide

theorem mem_of_lookup {name parent : String} (found : spec.links.lookup name = some parent) :
    (name, parent) ∈ spec.links := by
  obtain ⟨before, behind, split, -⟩ := List.lookup_eq_some_iff.mp found
  rw [split]
  exact List.mem_append_right _ List.mem_cons_self

theorem carriedBy_ne_none_iff (known : spec ∈ tables) :
    carriedBy readInt run source spec mappings held ≠ none ↔ ReadableRows readInt source spec held := by
  have single : ∀ name other, spec.links.lookup name ≠ none → spec.links.lookup other ≠ none → name = other := by
    intro name other first second
    obtain ⟨parent, first⟩ := Option.ne_none_iff_exists'.mp first
    obtain ⟨parent', second⟩ := Option.ne_none_iff_exists'.mp second
    exact congrArg Prod.fst (single_link spec known _ (mem_of_lookup first) _ (mem_of_lookup second))
  unfold carriedBy
  split
  · rename_i sourceTable table origin
    rw [ne_eq, Option.map_eq_none_iff, ← ne_eq, foldlM_ne_none_iff single]
    constructor
    · intro readable sourceTable' table' origin' present
      obtain rfl := Option.some.inj (origin.symm.trans origin')
      obtain rfl := Option.some.inj present
      exact readable
    · exact fun readable => readable sourceTable table origin rfl
  · rename_i absent
    refine iff_of_true (by simp) fun sourceTable table origin present => ?_
    exact absurd present (absent sourceTable table origin)

/-- A transaction does what another does whose maps agree on what the rows link to. -/
theorem carriedBy_alike (agree : ∀ sourceTable table, source spec.name = some sourceTable → held = some table →
      ∀ row ∈ newerRows sourceTable table.watermark, ∀ name ∈ sharedColumns sourceTable table, ∀ parent key,
        spec.links.lookup name = some parent → intOf readInt (row.cells name) = some key →
          mappings.get parent key = further.get parent key) :
    Option.Rel (fun one other => one.1.map Table.forget = other.1.map Table.forget ∧ one.2 = other.2)
      (carriedBy readInt run source spec mappings held) (carriedBy readInt run' source spec further held) := by
  unfold carriedBy
  split
  · rename_i sourceTable table origin
    have same : Alike (⟨table, [], 0, 0⟩ : Carrying) ⟨table, [], 0, 0⟩ := ⟨rfl, rfl⟩
    have ran : Option.Rel Alike
        ((newerRows sourceTable table.watermark).foldlM
          (Carrying.step readInt run spec mappings (sharedColumns sourceTable table)) ⟨table, [], 0, 0⟩)
        ((newerRows sourceTable table.watermark).foldlM
          (Carrying.step readInt run' spec further (sharedColumns sourceTable table)) ⟨table, [], 0, 0⟩) :=
      alike_foldlM same fun row member nullable => rowValuesFrom_congr (agree sourceTable table origin rfl row member)
    revert ran
    generalize List.foldlM (Carrying.step readInt run spec mappings _) _ _ = one
    generalize List.foldlM (Carrying.step readInt run' spec further _) _ _ = other
    intro ran
    cases ran with
    | none => exact Option.Rel.none
    | some alike => exact Option.Rel.some ⟨congrArg some alike.table, alike.mapping⟩
  · exact Option.Rel.some ⟨rfl, rfl⟩

theorem carriedBy_congr (agree : ∀ link ∈ spec.links, ∀ key, mappings.get link.2 key = further.get link.2 key) :
    carriedBy readInt run source spec mappings held = carriedBy readInt run source spec further held := by
  have steps : ∀ columns, Carrying.step readInt run spec mappings columns =
      Carrying.step readInt run spec further columns := by
    intro columns
    funext carrying row
    have same : rowValues readInt row columns spec mappings carrying.table.nullable =
        rowValues readInt row columns spec further carrying.table.nullable :=
      rowValuesFrom_congr fun name _ parent key link _ => agree _ (mem_of_lookup link) key
    unfold Carrying.step
    rw [same]
  unfold carriedBy
  simp only [steps]

theorem watermark_le {bound : String} (all : ∀ stored ∈ table.rows, stored.row.time ≤ bound) :
    table.watermark ≤ bound := by
  have through : ∀ times : List String, ∀ start ≤ bound, (∀ time ∈ times, time ≤ bound) →
      times.foldl max start ≤ bound := by
    intro times
    induction times with
    | nil => exact fun _ below _ => below
    | cons time rest ih =>
      intro start below times
      obtain ⟨head, tail⟩ := List.forall_mem_cons.mp times
      exact ih _ (max_le below head) tail
  have least : "" ≤ bound := not_lt.mp fun below =>
    List.not_lt_nil bound.toList (String.lt_iff_toList_lt.mp below)
  refine through _ "" least fun time member => ?_
  obtain ⟨stored, among, rfl⟩ := List.mem_map.mp member
  exact all stored among

/-- A table that was carried has nothing more to carry where nothing is mapped. -/
theorem carriedBy_again (first : carriedBy readInt run source spec mappings held = some (after, mapping))
    (unmapped : ∀ link ∈ spec.links, ∀ key, further.get link.2 key = none) :
    carriedBy readInt run' source spec further after = some (after, []) := by
  unfold carriedBy at first
  split at first
  · rename_i sourceTable table origin
    obtain ⟨carried, ran, same⟩ := Option.map_eq_some_iff.mp first
    obtain ⟨rfl, rfl⟩ := Prod.mk.inj same
    have grown := further_foldlM ran
    have columns : sharedColumns sourceTable carried.table = sharedColumns sourceTable table := by
      rw [sharedColumns, grown.columns, sharedColumns]
    have later : table.watermark ≤ carried.table.watermark :=
      watermark_le fun stored member => le_watermark (grown.rows.subset member)
    have leftOut : ∀ row ∈ newerRows sourceTable carried.table.watermark, ∃ found,
        rowValues readInt row (sharedColumns sourceTable table) spec further carried.table.nullable = some found ∧
          found.carryable = false := by
      intro row newer
      obtain ⟨member, late⟩ := mem_newerRows.mp newer
      rcases left_out_or_landed ran (mem_newerRows.mpr ⟨member, later.trans_lt late⟩) with ⟨found, read, left⟩ | there
      · rw [grown.nullable]
        exact rowValuesFrom_unmapped (fun name parent key link => unmapped _ (mem_of_lookup link) key) read left
      · obtain ⟨stored, among, time⟩ := there
        exact absurd (le_watermark among) (not_le.mpr (time ▸ late))
    obtain ⟨skipped, ran'⟩ : ∃ skipped, (newerRows sourceTable carried.table.watermark).foldlM
        (Carrying.step readInt run' spec further (sharedColumns sourceTable table)) ⟨carried.table, [], 0, 0⟩ =
          some ⟨carried.table, [], 0, skipped⟩ := foldlM_left_out leftOut
    unfold carriedBy
    rw [origin]
    dsimp only
    rw [columns, ran']
    rfl
  · rename_i absent
    obtain ⟨rfl, rfl⟩ := Prod.mk.inj (Option.some.inj first)
    unfold carriedBy
    split
    · rename_i sourceTable table origin
      exact absurd rfl (absent sourceTable table origin)
    · rfl

/-- The transaction of a table both stores have. -/
theorem carriedBy_present (origin : source spec.name = some sourceTable)
    (ran : carriedBy readInt run source spec mappings (some table) = some (after, mapping)) :
    ∃ carried, (newerRows sourceTable table.watermark).foldlM
        (Carrying.step readInt run spec mappings (sharedColumns sourceTable table)) ⟨table, [], 0, 0⟩ = some carried ∧
      after = some carried.table ∧ mapping = carried.mapping := by
  unfold carriedBy at ran
  rw [origin] at ran
  obtain ⟨carried, loop, same⟩ := Option.map_eq_some_iff.mp ran
  obtain ⟨rfl, rfl⟩ := Prod.mk.inj same
  exact ⟨carried, loop, rfl, rfl⟩

theorem mapped_of_carriedBy (ran : carriedBy readInt run source spec mappings held = some (after, mapping)) {key : Int}
    (found : mapping.lookup key ≠ none) : ∃ sourceTable table, source spec.name = some sourceTable ∧ held = some table ∧
      ∃ row ∈ newerRows sourceTable table.watermark, row.key = key := by
  unfold carriedBy at ran
  split at ran
  · rename_i sourceTable table origin
    obtain ⟨carried, loop, same⟩ := Option.map_eq_some_iff.mp ran
    obtain ⟨rfl, rfl⟩ := Prod.mk.inj same
    refine ⟨sourceTable, table, origin, rfl, ?_⟩
    rcases mapped_key loop found with none_before | row
    · exact absurd List.lookup_nil none_before
    · exact row
  · obtain ⟨rfl, rfl⟩ := Prod.mk.inj (Option.some.inj ran)
    exact absurd List.lookup_nil found

end Transactions

end DbaBrain.Db.Backfill
