import DbaBrain.Foundation.Sql

/-!
# Carrying a stand-in's history into the shared store

A backfill reads the source's tables in turn, parents before children, and
inserts the rows newer than the destination's newest one.  Keys are given anew;
a link is rewritten through the map of its parents' keys, which lives as long as
the one apply.  Each table is a transaction of its own, and other writers append
between them.
-/

namespace DbaBrain.Db.Backfill

open DbaBrain.Foundation.Sql

/-! ## Tables -/

structure TableSpec where
  name : String
  timeColumn : String
  key : String
  links : List (String × String)
  mapped : Bool
  deriving DecidableEq

def tables : List TableSpec :=
  [⟨"metric_runs", "started_at", "run_id", [], true⟩,
    ⟨"metric_results", "collected_at", "result_id", [("run_id", "metric_runs")], false⟩,
    ⟨"sla_runs", "started_at", "sla_run_id", [], true⟩,
    ⟨"sla_results", "collected_at", "sla_result_id", [("sla_run_id", "sla_runs")], false⟩,
    ⟨"telegram_send_messages", "row_ins_date", "send_tlgmsg_id", [], true⟩,
    ⟨"reports", "created_at", "report_id", [("telegram_send_message_id", "telegram_send_messages")], false⟩,
    ⟨"job_runs", "created_at", "log_id", [], false⟩,
    ⟨"sql_runs", "created_at", "sql_run_id", [], false⟩]

/-- A row: its key, the text of its time column, and its other columns. -/
structure Row where
  key : Int
  time : String
  cells : String → Value

/-- A table of the source; `columns` are those besides the key and the time. -/
structure SourceTable where
  columns : List String
  rows : List Row
  keys_nodup : (rows.map Row.key).Nodup

abbrev Source := String → Option SourceTable

/-- Which apply inserted a row, and from which row of the source. -/
structure Carriage where
  run : Nat
  sourceKey : Int

structure Stored where
  row : Row
  carriage : Option Carriage

structure Table where
  columns : List String
  nullable : List String
  defaults : String → Value
  rows : List Stored
  nextKey : Int
  links_default : ∀ spec ∈ tables, ∀ link ∈ spec.links, defaults link.1 = .null

abbrev Store := String → Option Table

/-- `INSERT INTO`, with the key the row got. -/
def Table.insert (table : Table) (time : String) (cells : String → Value) (carriage : Option Carriage) : Table × Int :=
  ({ table with rows := table.rows ++ [⟨⟨table.nextKey, time, cells⟩, carriage⟩], nextKey := table.nextKey + 1 },
    table.nextKey)

/-- `_watermark`: the newest time, or the empty text.  Times are texts, compared by their characters. -/
def Table.watermark (table : Table) : String := (table.rows.map fun stored => stored.row.time).foldl max ""

/-- `_shared_columns`, besides the time. -/
def sharedColumns (source : SourceTable) (table : Table) : List String :=
  source.columns.filter fun name => name ∈ table.columns

/-! ## One row -/

/-- The maps of the parents that were carried, by their table. -/
abbrev Mappings := List (String × List (Int × Int))

/-- `mappings.get(parent, {}).get(key)`. -/
def Mappings.get (mappings : Mappings) (parent : String) (key : Int) : Option Int :=
  ((mappings.lookup parent).getD []).lookup key

section Apply

/- What `int` reads of a text. -/

variable (readInt : String → Option Int)

/-- `int(value)`, of a value that is not NULL. -/
def intOf : Value → Option Int
  | .null => none
  | .integer value => some value
  | .real value => some (value.num.tdiv value.den)
  | .text value => readInt value

structure RowValues where
  values : List Value
  dropped : Nat
  carryable : Bool

/-- `_row_values`, or nothing where `int` raises. -/
def rowValuesFrom (spec : TableSpec) (mappings : Mappings) (nullable : List String) (row : Row) :
    List Value → Nat → List String → Option RowValues
  | values, dropped, [] => some ⟨values, dropped, true⟩
  | values, dropped, name :: rest =>
      match spec.links.lookup name with
      | none => rowValuesFrom spec mappings nullable row (values ++ [row.cells name]) dropped rest
      | some parent =>
          if row.cells name = .null then
            rowValuesFrom spec mappings nullable row (values ++ [row.cells name]) dropped rest
          else
            match intOf readInt (row.cells name) with
            | none => none
            | some key =>
                match mappings.get parent key with
                | some replacement =>
                    rowValuesFrom spec mappings nullable row (values ++ [.integer replacement]) dropped rest
                | none =>
                    if name ∉ nullable then some ⟨values, dropped, false⟩
                    else rowValuesFrom spec mappings nullable row (values ++ [.null]) (dropped + 1) rest

def rowValues (row : Row) (columns : List String) (spec : TableSpec) (mappings : Mappings) (nullable : List String) :
    Option RowValues :=
  rowValuesFrom readInt spec mappings nullable row [] 0 columns

/-! ## One table -/

/-- What a statement that names `columns` leaves in each column. -/
def cellsOf (defaults : String → Value) (columns : List String) (values : List Value) : String → Value := fun name =>
  ((columns.zip values).lookup name).getD (defaults name)

/-- The loop over a table's rows: the table, the parents' new keys, and the links and the rows that were left out. -/
structure Carrying where
  table : Table
  mapping : List (Int × Int)
  lost : Nat
  skipped : Nat

/-- One row of the loop; only a parent's new key is kept. -/
def Carrying.step (run : Nat) (spec : TableSpec) (mappings : Mappings) (columns : List String) (carrying : Carrying)
    (row : Row) : Option Carrying :=
  match rowValues readInt row columns spec mappings carrying.table.nullable with
  | none => none
  | some ⟨values, dropped, carryable⟩ =>
      if carryable = false then some { carrying with skipped := carrying.skipped + 1 }
      else
        let (table, newKey) :=
          carrying.table.insert row.time (cellsOf carrying.table.defaults columns values) (some ⟨run, row.key⟩)
        some
          { carrying with
            table := table
            mapping := if spec.mapped then (row.key, newKey) :: carrying.mapping else carrying.mapping
            lost := carrying.lost + dropped }

/-- The rows that cross: newer than the destination's newest, by their key. -/
def newerRows (source : SourceTable) (watermark : String) : List Row :=
  (source.rows.filter fun row => watermark < row.time).mergeSort fun first second => first.key ≤ second.key

/-- What one apply has counted, and the maps it has kept. -/
structure Progress where
  mappings : Mappings
  inserted : List (String × Nat)
  unlinked : List (String × Nat)
  leftBehind : List (String × Nat)

/-- A table's transaction, or nothing where it is rolled back. -/
def carryTable (run : Nat) (source : Source) (spec : TableSpec) (progress : Progress) (store : Store) :
    Option (Progress × Store) :=
  match source spec.name, store spec.name with
  | some sourceTable, some table =>
      let columns := sharedColumns sourceTable table
      let rows := newerRows sourceTable table.watermark
      match rows.foldlM (Carrying.step readInt run spec progress.mappings columns) ⟨table, [], 0, 0⟩ with
      | none => none
      | some carried =>
          some
            (⟨if spec.mapped then (spec.name, carried.mapping) :: progress.mappings else progress.mappings,
              (spec.name, rows.length - carried.skipped) :: progress.inserted,
              if carried.lost = 0 then progress.unlinked else (spec.name, carried.lost) :: progress.unlinked,
              if carried.skipped = 0 then progress.leftBehind else (spec.name, carried.skipped) :: progress.leftBehind⟩,
              Function.update store spec.name (some carried.table))
  | _, _ =>
      some ({ progress with
        mappings := if spec.mapped then (spec.name, []) :: progress.mappings else progress.mappings
        inserted := (spec.name, 0) :: progress.inserted }, store)

/-! ## Applies -/

/-- A row another writer appends. -/
structure Append where
  table : String
  time : String
  cells : String → Value

def Store.append (store : Store) (row : Append) : Store :=
  match store row.table with
  | none => store
  | some table => Function.update store row.table (some (table.insert row.time row.cells none).1)

/-- `apply`, table by table, with what other writers append before each; a statement that is refused rolls its table
back and ends the apply. -/
def applyTables (run : Nat) (source : Source) :
    List (TableSpec × List Append) → Progress → Store → Progress × Store
  | [], progress, store => (progress, store)
  | (spec, appends) :: rest, progress, store =>
      match carryTable readInt run source spec progress (appends.foldl Store.append store) with
      | none => (progress, appends.foldl Store.append store)
      | some (progress, store) => applyTables run source rest progress store

/-- An apply commits as many tables as there are interludes, and ends there. -/
def apply (run : Nat) (source : Source) (interludes : List (List Append)) (store : Store) : Progress × Store :=
  applyTables readInt run source (tables.zip interludes) ⟨[], [], [], []⟩ store

/-- Applies one after another, the first of them with the number `run`. -/
def applies (source : Source) : Nat → List (List (List Append)) → Store → Store
  | _, [], store => store
  | run, interludes :: rest, store => applies source (run + 1) rest (apply readInt run source interludes store).2

end Apply

/-! ## What a row brings across -/

/-- A column's value as it crosses: NULL or the parent's new key in a link, itself elsewhere. -/
def Crosses (readInt : String → Option Int) (spec : TableSpec) (mappings : Mappings) (row : Row) (name : String)
    (value : Value) : Prop :=
  match spec.links.lookup name with
  | none => value = row.cells name
  | some parent =>
      value = .null ∨ ∃ old new, intOf readInt (row.cells name) = some old ∧ mappings.get parent old = some new ∧
        value = .integer new

/-- A row of the destination that was made of a row of the source. -/
structure CopyOf (readInt : String → Option Int) (run : Nat) (spec : TableSpec) (mappings : Mappings) (row : Row)
    (stored : Stored) : Prop where
  carriage : stored.carriage = some ⟨run, row.key⟩
  time : stored.row.time = row.time
  links : ∀ link ∈ spec.links, stored.row.cells link.1 = .null ∨ ∃ old new,
    intOf readInt (row.cells link.1) = some old ∧ mappings.get link.2 old = some new ∧
      stored.row.cells link.1 = .integer new

section Rows

variable {readInt : String → Option Int} {run : Nat} {spec : TableSpec} {mappings : Mappings} {nullable : List String}
  {row : Row}

theorem rowValuesFrom_spec {columns : List String} {before : List Value} {dropped : Nat} {found : RowValues}
    (read : rowValuesFrom readInt spec mappings nullable row before dropped columns = some found)
    (carryable : found.carryable = true) :
    ∃ values, found.values = before ++ values ∧ List.Forall₂ (Crosses readInt spec mappings row) columns values := by
  induction columns generalizing before dropped with
  | nil =>
    obtain rfl := Option.some.inj read
    exact ⟨[], (List.append_nil before).symm, .nil⟩
  | cons name rest ih =>
    have further : ∀ {value dropped}, Crosses readInt spec mappings row name value →
        rowValuesFrom readInt spec mappings nullable row (before ++ [value]) dropped rest = some found →
        ∃ values, found.values = before ++ values ∧
          List.Forall₂ (Crosses readInt spec mappings row) (name :: rest) values := by
      intro value dropped crosses read
      obtain ⟨values, split, cross⟩ := ih read
      exact ⟨value :: values, by rw [split, List.append_assoc, List.singleton_append], .cons crosses cross⟩
    unfold rowValuesFrom at read
    cases link : spec.links.lookup name with
    | none =>
      rw [link] at read
      exact further (by simp [Crosses, link]) read
    | some parent =>
      rw [link] at read
      dsimp only at read
      by_cases missing : row.cells name = .null
      · rw [if_pos missing] at read
        exact further (by simp [Crosses, link, missing]) read
      rw [if_neg missing] at read
      cases names : intOf readInt (row.cells name) with
      | none => simp [names] at read
      | some key =>
        rw [names] at read
        dsimp only at read
        cases carried : mappings.get parent key with
        | some replacement =>
          rw [carried] at read
          exact further (by simp [Crosses, link, names, carried]) read
        | none =>
          rw [carried] at read
          dsimp only at read
          by_cases required : name ∉ nullable
          · rw [if_pos required] at read
            obtain rfl := Option.some.inj read
            cases carryable
          · rw [if_neg required] at read
            exact further (by simp [Crosses, link]) read

theorem lookup_link : ∀ spec ∈ tables, ∀ link ∈ spec.links, spec.links.lookup link.1 = some link.2 := by decide

theorem eq_of_name_eq : ∀ spec ∈ tables, ∀ other ∈ tables, spec.name = other.name → spec = other := by decide

theorem cellsOf_cases {defaults : String → Value} {columns : List String} {values : List Value}
    (cross : List.Forall₂ (Crosses readInt spec mappings row) columns values) (name : String) :
    cellsOf defaults columns values name = defaults name ∨
      Crosses readInt spec mappings row name (cellsOf defaults columns values name) := by
  induction cross with
  | nil => exact Or.inl rfl
  | @cons head value columns values crosses _ ih =>
    by_cases same : name = head
    · subst same
      right
      simpa [cellsOf] using crosses
    · have skip : cellsOf defaults (head :: columns) (value :: values) name = cellsOf defaults columns values name := by
        simp [cellsOf, List.lookup_cons, beq_false_of_ne same]
      rw [skip]
      exact ih

/-- One row of the loop inserts a copy of the row and may keep its key, or leaves the table and the map as they are. -/
theorem step_cases {columns : List String} {carrying after : Carrying} (known : spec ∈ tables)
    (step : Carrying.step readInt run spec mappings columns carrying row = some after) :
    (after.table = carrying.table ∧ after.mapping = carrying.mapping) ∨
      ∃ stored, CopyOf readInt run spec mappings row stored ∧ after.table.rows = carrying.table.rows ++ [stored] ∧
        (after.mapping = carrying.mapping ∨ after.mapping = (row.key, stored.row.key) :: carrying.mapping) := by
  unfold Carrying.step at step
  cases read : rowValues readInt row columns spec mappings carrying.table.nullable with
  | none => simp [read] at step
  | some found =>
    rw [read] at step
    dsimp only at step
    by_cases carryable : found.carryable = false
    · rw [if_pos carryable] at step
      obtain rfl := Option.some.inj step
      exact Or.inl ⟨rfl, rfl⟩
    · rw [if_neg carryable] at step
      obtain rfl := Option.some.inj step
      obtain ⟨values, split, cross⟩ := rowValuesFrom_spec read (Bool.not_eq_false _ ▸ carryable)
      rw [List.nil_append] at split
      refine Or.inr ⟨_, ⟨rfl, rfl, ?_⟩, rfl, ?_⟩
      · intro link member
        rw [split]
        rcases @cellsOf_cases _ _ _ _ carrying.table.defaults _ _ cross link.1 with default | crosses
        · left
          exact default.trans (carrying.table.links_default spec known link member)
        · simpa [Crosses, lookup_link spec known link member] using crosses
      · dsimp only
        split
        · exact Or.inr rfl
        · exact Or.inl rfl

end Rows

/-! ## What a table brings across -/

def Stored.sourceKey (stored : Stored) : Option Int := stored.carriage.map Carriage.sourceKey

/-- What the loop has done by the time it is through `done`. -/
structure Loop (readInt : String → Option Int) (run : Nat) (spec : TableSpec) (mappings : Mappings) (table : Table)
    (done : List Row) (carrying : Carrying) : Prop where
  added : ∃ added, carrying.table.rows = table.rows ++ added ∧
    (added.filterMap Stored.sourceKey).Sublist (done.map Row.key) ∧
    ∀ stored ∈ added, ∃ row ∈ done, CopyOf readInt run spec mappings row stored
  mapping : ∀ old new, carrying.mapping.lookup old = some new →
    ∃ stored ∈ carrying.table.rows, stored.carriage = some ⟨run, old⟩ ∧ stored.row.key = new

section Loops

variable {readInt : String → Option Int} {run : Nat} {spec : TableSpec} {mappings : Mappings} {table : Table}

theorem Loop.step {columns : List String} {done : List Row} {row : Row} {carrying after : Carrying} (known : spec ∈ tables)
    (loop : Loop readInt run spec mappings table done carrying)
    (step : Carrying.step readInt run spec mappings columns carrying row = some after) :
    Loop readInt run spec mappings table (done ++ [row]) after := by
  obtain ⟨added, rows, keys, copies⟩ := loop.added
  rcases step_cases known step with ⟨same, kept⟩ | ⟨stored, copy, grown, mapped⟩
  · refine ⟨⟨added, by rw [same, rows], ?_, ?_⟩, ?_⟩
    · rw [List.map_append]
      exact keys.trans (List.sublist_append_left _ _)
    · intro stored member
      obtain ⟨source, earlier, copy⟩ := copies stored member
      exact ⟨source, List.mem_append_left _ earlier, copy⟩
    · rw [same, kept]
      exact loop.mapping
  · refine ⟨⟨added ++ [stored], by rw [grown, rows, List.append_assoc], ?_, ?_⟩, ?_⟩
    · rw [List.filterMap_append, List.map_append]
      refine keys.append ?_
      simp [Stored.sourceKey, copy.carriage]
    · intro other member
      rcases List.mem_append.mp member with earlier | last
      · obtain ⟨source, before, copy⟩ := copies other earlier
        exact ⟨source, List.mem_append_left _ before, copy⟩
      · obtain rfl := List.mem_singleton.mp last
        exact ⟨row, List.mem_append_right _ List.mem_cons_self, copy⟩
    · intro old new found
      rw [grown]
      have kept : carrying.mapping.lookup old = some new → ∃ stored' ∈ carrying.table.rows ++ [stored],
          stored'.carriage = some ⟨run, old⟩ ∧ stored'.row.key = new := by
        intro earlier
        obtain ⟨parent, member, rest⟩ := loop.mapping old new earlier
        exact ⟨parent, List.mem_append_left _ member, rest⟩
      rcases mapped with same | cons
      · rw [same] at found
        exact kept found
      · rw [cons, List.lookup_cons] at found
        by_cases own : old = row.key
        · subst own
          rw [beq_self_eq_true] at found
          exact ⟨stored, List.mem_append_right _ List.mem_cons_self, copy.carriage, Option.some.inj found⟩
        · rw [beq_false_of_ne own] at found
          exact kept found

theorem Loop.foldlM {columns : List String} {rows done : List Row} {carrying after : Carrying} (known : spec ∈ tables)
    (loop : Loop readInt run spec mappings table done carrying)
    (ran : rows.foldlM (Carrying.step readInt run spec mappings columns) carrying = some after) :
    Loop readInt run spec mappings table (done ++ rows) after := by
  induction rows generalizing done carrying with
  | nil =>
    obtain rfl := Option.some.inj ran
    rwa [List.append_nil]
  | cons row rest ih =>
    rw [List.foldlM_cons] at ran
    obtain ⟨next, step, others⟩ := Option.bind_eq_some_iff.mp ran
    have through := ih (loop.step known step) others
    rwa [List.append_assoc, List.singleton_append] at through

theorem loop_start : Loop readInt run spec mappings table [] ⟨table, [], 0, 0⟩ :=
  ⟨⟨[], (List.append_nil _).symm, List.Sublist.refl _, fun _ member => nomatch member⟩, fun _ _ found => nomatch found⟩

end Loops

/-! ## What the store holds -/

/-- Every row is still there. -/
def Grows (store later : Store) : Prop :=
  ∀ name table, store name = some table → ∃ table', later name = some table' ∧ ∀ stored ∈ table.rows, stored ∈ table'.rows

theorem Grows.refl (store : Store) : Grows store store := fun _ table present => ⟨table, present, fun _ member => member⟩

variable {store later : Store} {name : String} {table : Table} {run : Nat}

theorem Grows.trans {last : Store} (grows : Grows store later) (further : Grows later last) : Grows store last := by
  intro name table present
  obtain ⟨table', present', kept⟩ := grows name table present
  obtain ⟨table'', present'', kept'⟩ := further name table' present'
  exact ⟨table'', present'', fun stored member => kept' stored (kept stored member)⟩

theorem grows_update {table' : Table} (present : store name = some table)
    (kept : ∀ stored ∈ table.rows, stored ∈ table'.rows) : Grows store (Function.update store name (some table')) := by
  intro other rows found
  by_cases same : other = name
  · subst same
    rw [present] at found
    obtain rfl := Option.some.inj found
    exact ⟨table', Function.update_self .., kept⟩
  · exact ⟨rows, by rw [Function.update_of_ne same, found], fun _ member => member⟩

/-- A row that the apply carried from the parent's row `old`, under the key `new`. -/
def CarriedAs (store : Store) (run : Nat) (parent : String) (old new : Int) : Prop :=
  ∃ table stored, store parent = some table ∧ stored ∈ table.rows ∧ stored.carriage = some ⟨run, old⟩ ∧
    stored.row.key = new

theorem CarriedAs.grows {parent : String} {old new : Int} (carried : CarriedAs store run parent old new)
    (grows : Grows store later) : CarriedAs later run parent old new := by
  obtain ⟨table, stored, present, member, rest⟩ := carried
  obtain ⟨table', present', kept⟩ := grows parent table present
  exact ⟨table', stored, present', kept stored member, rest⟩

/-- The row `carriage` names in a table of the source. -/
def ComesFrom (source : Source) (name : String) (carriage : Carriage) (row : Row) : Prop :=
  ∃ table, source name = some table ∧ row ∈ table.rows ∧ row.key = carriage.sourceKey

/-- A link that is NULL, or the key its apply gave the parent that the row has in the source. -/
def Linked (readInt : String → Option Int) (source : Source) (store : Store) (name : String) (stored : Stored)
    (carriage : Carriage) (link : String × String) : Prop :=
  stored.row.cells link.1 = .null ∨ ∃ row old new, ComesFrom source name carriage row ∧
    intOf readInt (row.cells link.1) = some old ∧ CarriedAs store carriage.run link.2 old new ∧
    stored.row.cells link.1 = .integer new

/-- What holds of the destination after any applies. -/
structure Sound (readInt : String → Option Int) (source : Source) (store : Store) : Prop where
  times : ∀ name table, store name = some table → ∀ stored ∈ table.rows, ∀ carriage, stored.carriage = some carriage →
    ∃ row, ComesFrom source name carriage row ∧ row.time = stored.row.time
  once : ∀ name table, store name = some table → (table.rows.filterMap Stored.sourceKey).Nodup
  links : ∀ spec ∈ tables, ∀ table, store spec.name = some table → ∀ stored ∈ table.rows, ∀ carriage,
    stored.carriage = some carriage → ∀ link ∈ spec.links, Linked readInt source store spec.name stored carriage link

/-- The maps of an apply name rows it has carried. -/
def Maps (store : Store) (run : Nat) (mappings : Mappings) : Prop :=
  ∀ parent old new, mappings.get parent old = some new → CarriedAs store run parent old new

theorem Maps.grows {mappings : Mappings} (maps : Maps store run mappings) (grows : Grows store later) :
    Maps later run mappings :=
  fun parent old new found => (maps parent old new found).grows grows

theorem Maps.cons {mappings : Mappings} {mapping : List (Int × Int)} (maps : Maps store run mappings)
    (own : ∀ old new, mapping.lookup old = some new → CarriedAs store run name old new) :
    Maps store run ((name, mapping) :: mappings) := by
  intro parent old new found
  unfold Mappings.get at found
  rw [List.lookup_cons] at found
  by_cases same : parent = name
  · subst same
    rw [beq_self_eq_true] at found
    exact own old new found
  · rw [beq_false_of_ne same] at found
    exact maps parent old new found

theorem le_watermark {stored : Stored} (member : stored ∈ table.rows) : stored.row.time ≤ table.watermark := by
  have bound : ∀ (times : List String) (first : String),
      first ≤ times.foldl max first ∧ ∀ time ∈ times, time ≤ times.foldl max first := by
    intro times
    induction times with
    | nil => exact fun first => ⟨le_rfl, fun _ member => nomatch member⟩
    | cons time rest ih =>
      intro first
      obtain ⟨above, others⟩ := ih (max first time)
      rw [List.foldl_cons]
      exact ⟨(le_max_left _ _).trans above, List.forall_mem_cons.mpr ⟨(le_max_right _ _).trans above, others⟩⟩
  exact (bound _ "").2 _ (List.mem_map_of_mem member)

theorem mem_newerRows {source : SourceTable} {watermark : String} {row : Row} :
    row ∈ newerRows source watermark ↔ row ∈ source.rows ∧ watermark < row.time := by
  unfold newerRows
  rw [List.mem_mergeSort, List.mem_filter, decide_eq_true_eq]

theorem nodup_newerRows (source : SourceTable) (watermark : String) :
    ((newerRows source watermark).map Row.key).Nodup := by
  unfold newerRows
  rw [((List.mergeSort_perm _ _).map Row.key).nodup_iff]
  exact source.keys_nodup.sublist (List.filter_sublist.map Row.key)

/-! ## Steps -/

section Steps

variable {readInt : String → Option Int} {source : Source} {store : Store}

theorem Linked.grows {later : Store} {name : String} {stored : Stored} {carriage : Carriage} {link : String × String}
    (linked : Linked readInt source store name stored carriage link) (grows : Grows store later) :
    Linked readInt source later name stored carriage link := by
  rcases linked with none | ⟨row, old, new, origin, names, carried, cell⟩
  · exact Or.inl none
  · exact Or.inr ⟨row, old, new, origin, names, carried.grows grows, cell⟩

/-- Rows may be put behind a table's when they come from their own rows of the source, each for the first time. -/
theorem Sound.extend {name : String} {table table' : Table} {added : List Stored} (sound : Sound readInt source store)
    (present : store name = some table) (rows : table'.rows = table.rows ++ added)
    (times : ∀ stored ∈ added, ∀ carriage, stored.carriage = some carriage →
      ∃ row, ComesFrom source name carriage row ∧ row.time = stored.row.time)
    (once : (table'.rows.filterMap Stored.sourceKey).Nodup)
    (links : ∀ spec ∈ tables, spec.name = name → ∀ stored ∈ added, ∀ carriage, stored.carriage = some carriage →
      ∀ link ∈ spec.links, Linked readInt source store name stored carriage link) :
    Sound readInt source (Function.update store name (some table')) := by
  have grows : Grows store (Function.update store name (some table')) :=
    grows_update present fun stored member => by rw [rows]; exact List.mem_append_left _ member
  refine ⟨?_, ?_, ?_⟩
  · intro other found held stored member
    by_cases same : other = name
    · subst same
      rw [Function.update_self] at held
      obtain rfl := Option.some.inj held
      rw [rows] at member
      rcases List.mem_append.mp member with before | new
      · exact sound.times other table present stored before
      · exact times stored new
    · rw [Function.update_of_ne same] at held
      exact sound.times other found held stored member
  · intro other found held
    by_cases same : other = name
    · subst same
      rw [Function.update_self] at held
      obtain rfl := Option.some.inj held
      exact once
    · rw [Function.update_of_ne same] at held
      exact sound.once other found held
  · intro spec known found held stored member carriage carried link mentioned
    by_cases same : spec.name = name
    · rw [same] at held
      rw [Function.update_self] at held
      obtain rfl := Option.some.inj held
      rw [rows] at member
      rcases List.mem_append.mp member with before | new
      · exact (sound.links spec known table (same ▸ present) stored before carriage carried link mentioned).grows grows
      · rw [same]
        exact (links spec known same stored new carriage carried link mentioned).grows grows
    · rw [Function.update_of_ne same] at held
      exact (sound.links spec known found held stored member carriage carried link mentioned).grows grows

theorem sound_append (sound : Sound readInt source store) (row : Append) :
    Sound readInt source (store.append row) ∧ Grows store (store.append row) := by
  unfold Store.append
  cases present : store row.table with
  | none => exact ⟨sound, Grows.refl store⟩
  | some table =>
    dsimp only
    constructor
    · apply sound.extend present (show (table.insert row.time row.cells none).1.rows =
        table.rows ++ [⟨⟨table.nextKey, row.time, row.cells⟩, none⟩] from rfl)
      · intro stored member carriage carried
        rw [List.mem_singleton.mp member] at carried
        cases carried
      · unfold Table.insert
        dsimp only
        rw [List.filterMap_append, List.filterMap_cons_none rfl, List.filterMap_nil, List.append_nil]
        exact sound.once row.table table present
      · intro spec _ _ stored member carriage carried
        rw [List.mem_singleton.mp member] at carried
        cases carried
    · exact grows_update present fun stored member => List.mem_append_left _ member

theorem sound_appends (sound : Sound readInt source store) (appends : List Append) :
    Sound readInt source (appends.foldl Store.append store) ∧ Grows store (appends.foldl Store.append store) := by
  induction appends generalizing store with
  | nil => exact ⟨sound, Grows.refl store⟩
  | cons row rest ih =>
    obtain ⟨next, grows⟩ := sound_append sound row
    obtain ⟨last, further⟩ := ih next
    exact ⟨last, grows.trans further⟩

/-- A table's transaction carries rows for the first time, with their links. -/
theorem sound_carryTable {run : Nat} {spec : TableSpec} {progress after : Progress} {later : Store}
    (sound : Sound readInt source store) (known : spec ∈ tables) (maps : Maps store run progress.mappings)
    (committed : carryTable readInt run source spec progress store = some (after, later)) :
    Sound readInt source later ∧ Maps later run after.mappings := by
  unfold carryTable at committed
  have absent : some ({ progress with
      mappings := if spec.mapped then (spec.name, []) :: progress.mappings else progress.mappings
      inserted := (spec.name, 0) :: progress.inserted }, store) = some (after, later) →
      Sound readInt source later ∧ Maps later run after.mappings := by
    intro same
    cases same
    refine ⟨sound, ?_⟩
    dsimp only
    split
    · exact maps.cons fun _ _ found => nomatch found
    · exact maps
  cases origin : source spec.name with
  | none =>
    rw [origin] at committed
    exact absent committed
  | some sourceTable =>
    cases present : store spec.name with
    | none =>
      rw [origin, present] at committed
      exact absent committed
    | some table =>
      rw [origin, present] at committed
      dsimp only at committed
      cases ran : (newerRows sourceTable table.watermark).foldlM
          (Carrying.step readInt run spec progress.mappings (sharedColumns sourceTable table)) ⟨table, [], 0, 0⟩ with
      | none => simp [ran] at committed
      | some carried =>
        rw [ran] at committed
        have loop := loop_start.foldlM known ran
        rw [List.nil_append] at loop
        obtain ⟨added, rows, keys, copies⟩ := loop.added
        cases committed
        dsimp only
        have comes : ∀ stored ∈ added, ∀ carriage, stored.carriage = some carriage →
            ∃ row, ComesFrom source spec.name carriage row ∧ table.watermark < row.time ∧
              CopyOf readInt run spec progress.mappings row stored := by
          intro stored member carriage held
          obtain ⟨row, newer, copy⟩ := copies stored member
          obtain ⟨inTable, late⟩ := mem_newerRows.mp newer
          rw [copy.carriage] at held
          obtain rfl := Option.some.inj held
          exact ⟨row, ⟨sourceTable, origin, inTable, rfl⟩, late, copy⟩
        have fresh : List.Disjoint (table.rows.filterMap Stored.sourceKey) (added.filterMap Stored.sourceKey) := by
          intro key before now
          obtain ⟨stored, member, named⟩ := List.mem_filterMap.mp before
          obtain ⟨other, member', named'⟩ := List.mem_filterMap.mp now
          obtain ⟨carriage, held, rfl⟩ := Option.map_eq_some_iff.mp named
          obtain ⟨carriage', held', same⟩ := Option.map_eq_some_iff.mp named'
          obtain ⟨row, ⟨rowTable, from_, inRows, key⟩, time⟩ := sound.times spec.name table present stored member carriage held
          obtain ⟨row', ⟨rowTable', from', inRows', key'⟩, late, _⟩ := comes other member' carriage' held'
          rw [from_] at from'
          obtain rfl := Option.some.inj from'
          have one := List.inj_on_of_nodup_map rowTable.keys_nodup inRows inRows' (by rw [key, key', same])
          subst one
          rw [time] at late
          exact absurd (le_watermark member) (not_le.mpr late)
        have next : Sound readInt source (Function.update store spec.name (some carried.table)) := by
          apply sound.extend present rows
          · intro stored member carriage held
            obtain ⟨row, origin, _, copy⟩ := comes stored member carriage held
            exact ⟨row, origin, copy.time.symm⟩
          · rw [rows, List.filterMap_append]
            exact List.nodup_append'.mpr
              ⟨sound.once spec.name table present, (nodup_newerRows _ _).sublist keys, fresh⟩
          · intro other known' same stored member carriage held link mentioned
            obtain rfl := eq_of_name_eq other known' spec known same
            obtain ⟨row, origin, _, copy⟩ := comes stored member carriage held
            rw [copy.carriage] at held
            obtain rfl := Option.some.inj held
            rcases copy.links link mentioned with none | ⟨old, new, names, mapped, cell⟩
            · exact Or.inl none
            · exact Or.inr ⟨row, old, new, origin, names, maps link.2 old new mapped, cell⟩
        have grows : Grows store (Function.update store spec.name (some carried.table)) :=
          grows_update present fun stored member => by rw [rows]; exact List.mem_append_left _ member
        refine ⟨next, ?_⟩
        split
        · apply (maps.grows grows).cons
          intro old new found
          obtain ⟨stored, member, rest⟩ := loop.mapping old new found
          exact ⟨carried.table, stored, Function.update_self .., member, rest⟩
        · exact maps.grows grows

theorem sound_applyTables {run : Nat} {steps : List (TableSpec × List Append)} {progress : Progress}
    (sound : Sound readInt source store) (known : ∀ step ∈ steps, step.1 ∈ tables)
    (maps : Maps store run progress.mappings) :
    Sound readInt source (applyTables readInt run source steps progress store).2 := by
  induction steps generalizing progress store with
  | nil => exact sound
  | cons step rest ih =>
    obtain ⟨head, tail⟩ := List.forall_mem_cons.mp known
    obtain ⟨appended, grows⟩ := sound_appends sound step.2
    unfold applyTables
    cases committed : carryTable readInt run source step.1 progress (step.2.foldl Store.append store) with
    | none => exact appended
    | some next =>
      obtain ⟨carried, kept⟩ := sound_carryTable appended head (maps.grows grows) committed
      exact ih carried tail kept

theorem sound_apply (sound : Sound readInt source store) (run : Nat) (interludes : List (List Append)) :
    Sound readInt source (apply readInt run source interludes store).2 :=
  sound_applyTables sound (fun _ member => (List.of_mem_zip member).1) fun _ _ _ found => nomatch found

theorem sound_applies (sound : Sound readInt source store) (run : Nat) (runs : List (List (List Append))) :
    Sound readInt source (applies readInt source run runs store) := by
  induction runs generalizing run store with
  | nil => exact sound
  | cons interludes rest ih => exact ih (sound_apply sound run interludes) (run + 1)

end Steps

/-! ## From any destination -/

/-- A table before any apply, its rows whoever wrote them. -/
structure Before where
  columns : List String
  nullable : List String
  defaults : String → Value
  rows : List Row
  nextKey : Int
  links_default : ∀ spec ∈ tables, ∀ link ∈ spec.links, defaults link.1 = .null

def opened (before : String → Option Before) : Store := fun name =>
  (before name).map fun table =>
    ⟨table.columns, table.nullable, table.defaults, table.rows.map fun row => ⟨row, none⟩, table.nextKey,
      table.links_default⟩

theorem opened_carriage {before : String → Option Before} (present : opened before name = some table) :
    ∀ stored ∈ table.rows, stored.carriage = none := by
  unfold opened at present
  obtain ⟨held, _, rfl⟩ := Option.map_eq_some_iff.mp present
  intro stored member
  obtain ⟨row, _, rfl⟩ := List.mem_map.mp member
  rfl

theorem sound_opened (readInt : String → Option Int) (source : Source) (before : String → Option Before) :
    Sound readInt source (opened before) := by
  refine ⟨?_, ?_, ?_⟩
  · intro name table present stored member carriage held
    rw [opened_carriage present stored member] at held
    cases held
  · intro name table present
    have none : table.rows.filterMap Stored.sourceKey = [] := by
      rw [List.filterMap_eq_nil_iff]
      intro stored member
      rw [Stored.sourceKey, opened_carriage present stored member, Option.map_none]
    rw [none]
    exact List.nodup_nil
  · intro spec _ table present stored member carriage held
    rw [opened_carriage present stored member] at held
    cases held

/-- Whatever the stores hold, after any applies with other writers between their tables, a carried row's links are NULL
or the keys under which its own apply carried its own parents, and no row of the source was carried twice. -/
theorem carried_once_to_own_parents (readInt : String → Option Int) (source : Source) (before : String → Option Before)
    (run : Nat) (runs : List (List (List Append))) :
    (∀ spec ∈ tables, ∀ table, applies readInt source run runs (opened before) spec.name = some table →
      ∀ stored ∈ table.rows, ∀ carriage, stored.carriage = some carriage → ∀ link ∈ spec.links,
        Linked readInt source (applies readInt source run runs (opened before)) spec.name stored carriage link) ∧
    ∀ name table, applies readInt source run runs (opened before) name = some table →
      (table.rows.filterMap Stored.sourceKey).Nodup :=
  have sound := sound_applies (sound_opened readInt source before) run runs
  ⟨sound.links, sound.once⟩

end DbaBrain.Db.Backfill
