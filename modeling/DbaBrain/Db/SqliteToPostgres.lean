import DbaBrain.Foundation.Text
import DbaBrain.Foundation.Uniqueness

/-!
# The uniqueness rules the migration rebuilds

`read_sqlite_schema` asks the pragmas for each index: its origin, and the
columns its key names.  A condition is not asked for, and a part that is an
expression has no name, so what is created is an index over the named columns
of every row.  The rules are preserved exactly when that changes no pair of
rows.
-/

namespace DbaBrain.Db.SqliteToPostgres

open DbaBrain.Foundation
open DbaBrain.Foundation.Sql
open DbaBrain.Foundation.Uniqueness

/-! ## The store in SQLite -/

def safeIdentifier (text : String) : Bool :=
  match text.toList with
  | [] => false
  | first :: rest =>
      ('a' ≤ first && first ≤ 'z' || first = '_') && rest.length ≤ 62 &&
        rest.all fun c => 'a' ≤ c && c ≤ 'z' || '0' ≤ c && c ≤ '9' || c = '_'

/-- `validate_identifier`: a name it refuses ends the migration before it writes. -/
def validateIdentifier (name : String) : Option String :=
  if safeIdentifier (Text.strip name) then some (Text.strip name) else none

/-- A name the migration takes as it is. -/
structure Identifier where
  text : String
  accepted : validateIdentifier text = some text
  deriving DecidableEq

abbrev Row := Identifier → Value

structure SqliteColumn where
  name : Identifier
  pkPosition : Nat

/-- A part of an index's key. -/
inductive KeyPart
  | column (name : Identifier) (descending : Bool)
  | expression (value : Row → Value) (descending : Bool)

/-- An index of a table, by its origin: the primary key's own, a `UNIQUE` of the table, or a
`CREATE INDEX` with its `WHERE`. -/
inductive Index
  | ofPrimaryKey (columns : List Identifier)
  | ofConstraint (columns : List Identifier)
  | created (name : Identifier) (unique : Bool) (parts : List KeyPart) (condition : Option (Row → Truth))

structure StoreTable where
  name : Identifier
  columns : List SqliteColumn
  indexes : List Index

/-! ## The pragmas -/

inductive Origin
  | pk
  | u
  | c

def Index.origin : Index → Origin
  | .ofPrimaryKey _ => .pk
  | .ofConstraint _ => .u
  | .created .. => .c

def Index.parts : Index → List KeyPart
  | .ofPrimaryKey columns | .ofConstraint columns => columns.map fun name => .column name false
  | .created _ _ parts _ => parts

/-- A row of `PRAGMA index_xinfo`: an expression has no name, and the row id is no part of the key. -/
structure XinfoRow where
  name : Option Identifier
  desc : Bool
  key : Bool

def KeyPart.xinfo : KeyPart → XinfoRow
  | .column name descending => ⟨some name, descending, true⟩
  | .expression _ descending => ⟨none, descending, true⟩

def Index.xinfo (index : Index) : List XinfoRow := index.parts.map KeyPart.xinfo ++ [⟨none, false, false⟩]

/-! ## What is read -/

structure SqliteIndex where
  name : Identifier
  table : Identifier
  unique : Bool
  columns : List (Identifier × Bool)

structure SqliteTable where
  name : Identifier
  columns : List SqliteColumn
  uniqueConstraints : List (List Identifier)

def pkColumns (columns : List SqliteColumn) : List Identifier :=
  ((columns.filter fun column => 0 < column.pkPosition).mergeSort fun first second =>
    first.pkPosition ≤ second.pkPosition).map SqliteColumn.name

def keyColumns (index : Index) : List (Identifier × Bool) :=
  index.xinfo.filterMap fun part => if part.key then part.name.map fun name => (name, part.desc) else none

/-- One row of `PRAGMA index_list` in the loop over a table's indexes. -/
def readIndex (table : Identifier) (index : Index) (constraints : List (List Identifier)) (indexes : List SqliteIndex) :
    List (List Identifier) × List SqliteIndex :=
  if keyColumns index = [] then (constraints, indexes)
  else
    match index with
    | .ofPrimaryKey _ => (constraints, indexes)
    | .ofConstraint _ => (constraints ++ [(keyColumns index).map Prod.fst], indexes)
    | .created name unique _ _ => (constraints, indexes ++ [⟨name, table, unique, keyColumns index⟩])

def readIndexes (table : Identifier) :
    List Index → List (List Identifier) → List SqliteIndex → List (List Identifier) × List SqliteIndex
  | [], constraints, indexes => (constraints, indexes)
  | index :: rest, constraints, indexes =>
      readIndexes table rest (readIndex table index constraints indexes).1 (readIndex table index constraints indexes).2

/-- `read_sqlite_schema`, without the foreign keys. -/
def readSqliteSchema : List StoreTable → List SqliteTable × List SqliteIndex
  | [] => ([], [])
  | table :: rest =>
      let read := readIndexes table.name table.indexes [] []
      (⟨table.name, table.columns, read.1⟩ :: (readSqliteSchema rest).1, read.2 ++ (readSqliteSchema rest).2)

/-! ## What is created -/

/-- The keys a `CREATE TABLE` declares. -/
structure CreateTable where
  name : Identifier
  primaryKey : List Identifier
  uniques : List (List Identifier)

structure CreateIndex where
  name : Identifier
  table : Identifier
  unique : Bool
  columns : List (Identifier × Bool)

/-- `create_table_sql`. -/
def createTable (table : SqliteTable) : CreateTable := ⟨table.name, pkColumns table.columns, table.uniqueConstraints⟩

/-- `create_index_sql`. -/
def createIndex (index : SqliteIndex) : CreateIndex := ⟨index.name, index.table, index.unique, index.columns⟩

def buildDdl (schema : List SqliteTable × List SqliteIndex) : List CreateTable × List CreateIndex :=
  (schema.1.map createTable, schema.2.map createIndex)

/-! ## The rules -/

def columnRule (columns : List Identifier) : Rule Row := ⟨fun _ => some true, columns.map fun name row => row name⟩

def KeyPart.value : KeyPart → Row → Value
  | .column name _ => fun row => row name
  | .expression value _ => value

/-- What makes a unique index of a table unique; the primary key's own index adds nothing to the key. -/
def Index.uniqueRule : Index → Option (List KeyPart × Option (Row → Truth))
  | .ofPrimaryKey _ => none
  | .ofConstraint columns => some (columns.map fun name => .column name false, none)
  | .created _ unique parts condition => if unique then some (parts, condition) else none

/-- The uniqueness rules of a table in SQLite, the primary key first. -/
def StoreTable.uniques (table : StoreTable) : List (List KeyPart × Option (Row → Truth)) :=
  (if pkColumns table.columns = [] then []
    else [((pkColumns table.columns).map fun name => .column name false, none)]) ++
      table.indexes.filterMap Index.uniqueRule

def ruleOf (unique : List KeyPart × Option (Row → Truth)) : Rule Row where
  condition := unique.2.getD fun _ => some true
  key := unique.1.map KeyPart.value

def uniquesOf (store : List StoreTable) (name : Identifier) : List (List KeyPart × Option (Row → Truth)) :=
  (store.filter fun table => table.name = name).flatMap StoreTable.uniques

def sqliteRules (store : List StoreTable) (name : Identifier) : List (Rule Row) := (uniquesOf store name).map ruleOf

/-- The rules PostgreSQL keeps of a created table and the created indexes. -/
def postgresRules (ddl : List CreateTable × List CreateIndex) (name : Identifier) : List (Rule Row) :=
  (ddl.1.filter fun table => table.name = name).flatMap (fun table =>
      (if table.primaryKey = [] then [] else [columnRule table.primaryKey]) ++ table.uniques.map columnRule) ++
    (ddl.2.filter fun index => index.table = name ∧ index.unique).map fun index => columnRule (index.columns.map Prod.fst)

/-- A set of rows is one SQLite accepts exactly when it is one PostgreSQL accepts. -/
def PreservesUniqueness (store : List StoreTable) : Prop :=
  ∀ rows : Identifier → List Row,
    (∀ name, Accepts (sqliteRules store name) (rows name)) ↔
      ∀ name, Accepts (postgresRules (buildDdl (readSqliteSchema store)) name) (rows name)

/-! ## What is kept of a rule -/

def namedColumns (unique : List KeyPart × Option (Row → Truth)) : List Identifier :=
  unique.1.filterMap fun part =>
    match part with
    | .column name _ => some name
    | .expression _ _ => none

section Read

variable {store : List StoreTable} {table : StoreTable} {name : Identifier} {first second : Row}
  {indexes : List Index} {columns : List Identifier}

@[simp]
theorem namedColumns_columns (condition : Option (Row → Truth)) :
    namedColumns (columns.map fun name => .column name false, condition) = columns := by
  simp [namedColumns, List.filterMap_map]

theorem keyColumns_names (index : Index) (condition : Option (Row → Truth)) :
    (keyColumns index).map Prod.fst = namedColumns (index.parts, condition) := by
  unfold keyColumns Index.xinfo namedColumns
  rw [List.filterMap_append, List.filterMap_map]
  induction index.parts with
  | nil => rfl
  | cons part rest ih =>
    cases part with
    | column name descending => simpa [KeyPart.xinfo] using ih
    | expression value descending => simpa [KeyPart.xinfo] using ih

/-- What the loop adds of an index to the table's constraints. -/
def constraintOf (index : Index) : Option (List Identifier) :=
  match index with
  | .ofConstraint _ => if keyColumns index = [] then none else some ((keyColumns index).map Prod.fst)
  | _ => none

/-- What the loop adds of an index to the indexes. -/
def createdOf (table : Identifier) (index : Index) : Option SqliteIndex :=
  match index with
  | .created name unique _ _ => if keyColumns index = [] then none else some ⟨name, table, unique, keyColumns index⟩
  | _ => none

theorem readIndex_eq (index : Index) (constraints : List (List Identifier)) (read : List SqliteIndex) :
    readIndex name index constraints read =
      (constraints ++ (constraintOf index).toList, read ++ (createdOf name index).toList) := by
  unfold readIndex constraintOf createdOf
  cases index with
  | ofPrimaryKey keys => simp
  | ofConstraint keys => dsimp only; split <;> simp
  | created indexName unique parts condition => dsimp only; split <;> simp

theorem readIndexes_eq (constraints : List (List Identifier)) (read : List SqliteIndex) :
    readIndexes name indexes constraints read =
      (constraints ++ indexes.filterMap constraintOf, read ++ indexes.filterMap (createdOf name)) := by
  induction indexes generalizing constraints read with
  | nil => simp [readIndexes]
  | cons index rest ih =>
    rw [readIndexes, readIndex_eq, ih]
    cases kept : constraintOf index <;> cases made : createdOf name index <;> simp [kept, made]

theorem read_iff (name : Identifier) (holds : List Identifier → Prop) (index : Index) :
    ((∃ columns ∈ constraintOf index, holds columns) ∨
        ∃ created ∈ createdOf name index, created.unique = true ∧ holds (created.columns.map Prod.fst)) ↔
      ∃ unique ∈ index.uniqueRule, namedColumns unique ≠ [] ∧ holds (namedColumns unique) := by
  cases index with
  | ofPrimaryKey keys => simp [constraintOf, createdOf, Index.uniqueRule]
  | ofConstraint keys =>
    have names : (keyColumns (.ofConstraint keys)).map Prod.fst = keys :=
      (keyColumns_names (.ofConstraint keys) none).trans (namedColumns_columns none)
    have nameless : keyColumns (.ofConstraint keys) = [] ↔ keys = [] := by
      rw [← List.map_eq_nil_iff, names]
    simp [constraintOf, createdOf, Index.uniqueRule, nameless, names]
  | created indexName unique parts condition =>
    have names : (keyColumns (.created indexName unique parts condition)).map Prod.fst = namedColumns (parts, condition) :=
      keyColumns_names _ condition
    have nameless : keyColumns (.created indexName unique parts condition) = [] ↔ namedColumns (parts, condition) = [] := by
      rw [← List.map_eq_nil_iff, names]
    cases unique with
    | false => simp [constraintOf, createdOf, Index.uniqueRule]
    | true => simp [constraintOf, createdOf, Index.uniqueRule, nameless, names]

/-- What PostgreSQL refuses, by what was created. -/
theorem refused_postgres (ddl : List CreateTable × List CreateIndex) :
    Refused (postgresRules ddl name) first second ↔
      (∃ created ∈ ddl.1, created.name = name ∧
          ((created.primaryKey ≠ [] ∧ (columnRule created.primaryKey).Refuses first second) ∨
            ∃ columns ∈ created.uniques, (columnRule columns).Refuses first second)) ∨
        ∃ index ∈ ddl.2, index.table = name ∧ index.unique = true ∧
          (columnRule (index.columns.map Prod.fst)).Refuses first second := by
  rw [postgresRules, refused_append]
  refine or_congr ?_ ?_
  · constructor
    · rintro ⟨rule, member, refuses⟩
      obtain ⟨created, among, key⟩ := List.mem_flatMap.mp member
      obtain ⟨is_created, here⟩ := List.mem_filter.mp among
      refine ⟨created, is_created, of_decide_eq_true here, ?_⟩
      rcases List.mem_append.mp key with primary | unique
      · split at primary
        · cases primary
        · rename_i keyed
          rw [List.mem_singleton.mp primary] at refuses
          exact Or.inl ⟨keyed, refuses⟩
      · obtain ⟨columns, is_unique, rfl⟩ := List.mem_map.mp unique
        exact Or.inr ⟨columns, is_unique, refuses⟩
    · rintro ⟨created, is_created, here, ⟨keyed, refuses⟩ | ⟨columns, is_unique, refuses⟩⟩
      · refine ⟨_, List.mem_flatMap.mpr ⟨created, List.mem_filter.mpr ⟨is_created, decide_eq_true here⟩, ?_⟩, refuses⟩
        simp [keyed]
      · refine ⟨_, List.mem_flatMap.mpr ⟨created, List.mem_filter.mpr ⟨is_created, decide_eq_true here⟩, ?_⟩, refuses⟩
        exact List.mem_append.mpr (Or.inr (List.mem_map_of_mem is_unique))
  · constructor
    · rintro ⟨rule, member, refuses⟩
      obtain ⟨index, among, rfl⟩ := List.mem_map.mp member
      obtain ⟨is_created, here⟩ := List.mem_filter.mp among
      obtain ⟨at_table, unique⟩ := of_decide_eq_true here
      exact ⟨index, is_created, at_table, unique, refuses⟩
    · rintro ⟨index, is_created, at_table, unique, refuses⟩
      exact ⟨_, List.mem_map_of_mem (List.mem_filter.mpr ⟨is_created, decide_eq_true ⟨at_table, unique⟩⟩), refuses⟩

theorem mem_uniques {unique : List KeyPart × Option (Row → Truth)} :
    unique ∈ table.uniques ↔
      (pkColumns table.columns ≠ [] ∧ unique = ((pkColumns table.columns).map fun name => .column name false, none)) ∨
        ∃ index ∈ table.indexes, unique ∈ index.uniqueRule := by
  unfold StoreTable.uniques
  rw [List.mem_append, List.mem_filterMap]
  refine or_congr ?_ Iff.rfl
  split
  · rename_i keyless
    simp [keyless]
  · rename_i keyed
    simp [keyed]

theorem refused_table :
    ((pkColumns table.columns ≠ [] ∧ (columnRule (pkColumns table.columns)).Refuses first second) ∨
        (∃ columns ∈ (readIndexes table.name table.indexes [] []).1, (columnRule columns).Refuses first second)) ∨
      (∃ index ∈ (readIndexes table.name table.indexes [] []).2, index.unique = true ∧
        (columnRule (index.columns.map Prod.fst)).Refuses first second) ↔
      ∃ unique ∈ table.uniques, namedColumns unique ≠ [] ∧ (columnRule (namedColumns unique)).Refuses first second := by
  rw [readIndexes_eq]
  simp only [mem_uniques, List.nil_append, List.mem_filterMap]
  have read (index : Index) := read_iff table.name (fun columns => (columnRule columns).Refuses first second) index
  constructor
  · rintro ((⟨keyed, refuses⟩ | ⟨columns, ⟨index, among, kept⟩, refuses⟩) | ⟨created, ⟨index, among, made⟩, unique, refuses⟩)
    · exact ⟨_, Or.inl ⟨keyed, rfl⟩, by simpa using keyed, by simpa using refuses⟩
    · obtain ⟨rule, is_rule, named, refuses⟩ := (read index).mp (Or.inl ⟨columns, kept, refuses⟩)
      exact ⟨rule, Or.inr ⟨index, among, is_rule⟩, named, refuses⟩
    · obtain ⟨rule, is_rule, named, refuses⟩ := (read index).mp (Or.inr ⟨created, made, unique, refuses⟩)
      exact ⟨rule, Or.inr ⟨index, among, is_rule⟩, named, refuses⟩
  · rintro ⟨unique, ⟨keyed, rfl⟩ | ⟨index, among, is_rule⟩, named, refuses⟩
    · exact Or.inl (Or.inl ⟨keyed, by simpa using refuses⟩)
    · rcases (read index).mpr ⟨unique, is_rule, named, refuses⟩ with
        ⟨columns, kept, refuses⟩ | ⟨created, made, is_unique, refuses⟩
      · exact Or.inl (Or.inr ⟨columns, ⟨index, among, kept⟩, refuses⟩)
      · exact Or.inr ⟨created, ⟨index, among, made⟩, is_unique, refuses⟩

theorem mem_readSqliteSchema_tables {read : SqliteTable} :
    read ∈ (readSqliteSchema store).1 ↔
      ∃ table ∈ store, read = ⟨table.name, table.columns, (readIndexes table.name table.indexes [] []).1⟩ := by
  induction store with
  | nil => simp [readSqliteSchema]
  | cons head rest ih => simp [readSqliteSchema, ih]

variable {read : SqliteIndex}

theorem mem_readSqliteSchema_indexes :
    read ∈ (readSqliteSchema store).2 ↔ ∃ table ∈ store, read ∈ (readIndexes table.name table.indexes [] []).2 := by
  induction store with
  | nil => simp [readSqliteSchema]
  | cons head rest ih => simp [readSqliteSchema, ih]

theorem table_of_mem_readIndexes (member : read ∈ (readIndexes name indexes [] []).2) : read.table = name := by
  rw [readIndexes_eq, List.nil_append] at member
  obtain ⟨index, -, made⟩ := List.mem_filterMap.mp member
  unfold createdOf at made
  split at made
  · split at made
    · cases made
    · obtain rfl := Option.some.inj made
      rfl
  · cases made

/-- PostgreSQL refuses two rows when they are equal in the columns some unique index names. -/
theorem refused_postgres_iff :
    Refused (postgresRules (buildDdl (readSqliteSchema store)) name) first second ↔
      ∃ unique ∈ uniquesOf store name, namedColumns unique ≠ [] ∧
        (columnRule (namedColumns unique)).Refuses first second := by
  rw [refused_postgres]
  have of_uniques : (∃ unique ∈ uniquesOf store name, namedColumns unique ≠ [] ∧
      (columnRule (namedColumns unique)).Refuses first second) ↔ ∃ table ∈ store, table.name = name ∧
        ∃ unique ∈ table.uniques, namedColumns unique ≠ [] ∧ (columnRule (namedColumns unique)).Refuses first second := by
    simp only [uniquesOf, List.mem_flatMap, List.mem_filter, decide_eq_true_eq]
    constructor
    · rintro ⟨unique, ⟨table, ⟨among, here⟩, is_unique⟩, refuses⟩
      exact ⟨table, among, here, unique, is_unique, refuses⟩
    · rintro ⟨table, among, here, unique, is_unique, refuses⟩
      exact ⟨unique, ⟨table, ⟨among, here⟩, is_unique⟩, refuses⟩
  rw [of_uniques]
  simp only [← refused_table]
  constructor
  · rintro (⟨created, is_created, here, refuses⟩ | ⟨index, is_created, here, unique, refuses⟩)
    · obtain ⟨read, is_read, rfl⟩ := List.mem_map.mp is_created
      obtain ⟨table, among, rfl⟩ := mem_readSqliteSchema_tables.mp is_read
      exact ⟨table, among, here, Or.inl refuses⟩
    · obtain ⟨read, is_read, rfl⟩ := List.mem_map.mp is_created
      obtain ⟨table, among, of_table⟩ := mem_readSqliteSchema_indexes.mp is_read
      exact ⟨table, among, (table_of_mem_readIndexes of_table).symm.trans here, Or.inr ⟨read, of_table, unique, refuses⟩⟩
  · rintro ⟨table, among, here, refuses | ⟨read, of_table, unique, refuses⟩⟩
    · exact Or.inl ⟨_, List.mem_map_of_mem (mem_readSqliteSchema_tables.mpr ⟨table, among, rfl⟩), here, refuses⟩
    · exact Or.inr ⟨_, List.mem_map_of_mem (mem_readSqliteSchema_indexes.mpr ⟨table, among, of_table⟩),
        (table_of_mem_readIndexes of_table).trans here, unique, refuses⟩

end Read

/-! ## When the rules are preserved -/

section Preserved

variable {store : List StoreTable} {name : Identifier} {first second : Row}
  {unique : List KeyPart × Option (Row → Truth)}

/-- Neither a condition nor an expression. -/
def Plain (unique : List KeyPart × Option (Row → Truth)) : Prop :=
  unique.2 = none ∧ ∀ part ∈ unique.1, ∃ name descending, part = .column name descending

def EqualWhereNamed (unique : List KeyPart × Option (Row → Truth)) (first second : Row) : Prop :=
  namedColumns unique ≠ [] ∧ (columnRule (namedColumns unique)).Refuses first second

theorem refuses_columnRule {columns : List Identifier} :
    (columnRule columns).Refuses first second ↔ ∀ name ∈ columns, (first name).equal (second name) = some true := by
  simp [columnRule, Rule.Refuses]

theorem mem_namedColumns {column : Identifier} :
    column ∈ namedColumns unique ↔ ∃ descending, .column column descending ∈ unique.1 := by
  rw [namedColumns, List.mem_filterMap]
  constructor
  · rintro ⟨part, member, names⟩
    cases part with
    | column other descending =>
      obtain rfl := Option.some.inj names
      exact ⟨descending, member⟩
    | expression value descending => cases names
  · rintro ⟨descending, member⟩
    exact ⟨_, member, rfl⟩

theorem equal_of_refuses (refuses : (ruleOf unique).Refuses first second) :
    (columnRule (namedColumns unique)).Refuses first second := by
  rw [refuses_columnRule]
  intro column member
  obtain ⟨descending, among⟩ := mem_namedColumns.mp member
  exact refuses.2.2 _ (List.mem_map_of_mem among)

theorem Plain.refuses (plain : Plain unique) (equal : (columnRule (namedColumns unique)).Refuses first second) :
    (ruleOf unique).Refuses first second := by
  obtain ⟨total, columns⟩ := plain
  rw [refuses_columnRule] at equal
  refine ⟨by simp [ruleOf, total], by simp [ruleOf, total], ?_⟩
  intro value member
  obtain ⟨part, among, rfl⟩ := List.mem_map.mp member
  obtain ⟨column, descending, rfl⟩ := columns part among
  exact equal column (mem_namedColumns.mpr ⟨descending, among⟩)

/-- Dropping conditions and expressions changes nothing: what is equal in the columns a conditional
or expression index names is refused in SQLite anyway, and what an index naming no column refuses is
equal in the columns another rule names. -/
structure Unchanged (store : List StoreTable) : Prop where
  no_stricter : ∀ name, ∀ unique ∈ uniquesOf store name, ¬ Plain unique → ∀ first second,
    EqualWhereNamed unique first second → Refused (sqliteRules store name) first second
  no_weaker : ∀ name, ∀ unique ∈ uniquesOf store name, namedColumns unique = [] → ∀ first second,
    (ruleOf unique).Refuses first second → ∃ other ∈ uniquesOf store name, EqualWhereNamed other first second

theorem refused_sqlite_iff :
    Refused (sqliteRules store name) first second ↔
      ∃ unique ∈ uniquesOf store name, (ruleOf unique).Refuses first second := by
  simp [Refused, sqliteRules]

/-- The migration preserves the uniqueness rules exactly when dropping conditions and expressions
changes nothing. -/
theorem preservesUniqueness_iff (store : List StoreTable) : PreservesUniqueness store ↔ Unchanged store := by
  unfold PreservesUniqueness
  rw [accept_same_iff]
  simp only [refused_postgres_iff]
  constructor
  · intro same
    refine ⟨fun name unique member _ first second equal => ?_, fun name unique member _ first second refuses => ?_⟩
    · exact (same name first second).mpr ⟨unique, member, equal⟩
    · exact (same name first second).mp (refused_sqlite_iff.mpr ⟨unique, member, refuses⟩)
  · intro unchanged name first second
    constructor
    · intro refused
      obtain ⟨unique, member, refuses⟩ := refused_sqlite_iff.mp refused
      by_cases nameless : namedColumns unique = []
      · exact unchanged.no_weaker name unique member nameless first second refuses
      · exact ⟨unique, member, nameless, equal_of_refuses refuses⟩
    · rintro ⟨unique, member, equal⟩
      by_cases plain : Plain unique
      · exact refused_sqlite_iff.mpr ⟨unique, member, plain.refuses equal.2⟩
      · exact unchanged.no_stricter name unique member plain first second equal

/-! The claim of a run: `ux_job_runs_claim`. -/

def jobRunsName : Identifier := ⟨"job_runs", by decide +kernel⟩
def logId : Identifier := ⟨"log_id", by decide +kernel⟩
def claimKey : Identifier := ⟨"claim_key", by decide +kernel⟩
def hostName : Identifier := ⟨"host_name", by decide +kernel⟩
def status : Identifier := ⟨"status", by decide +kernel⟩
def uxJobRunsClaim : Identifier := ⟨"ux_job_runs_claim", by decide +kernel⟩

/-- `claim_key IS NOT NULL AND lower(status) = 'running'`. -/
def claims (row : Row) : Truth :=
  (row claimKey).isSet.and ((match row status with
    | .text value => .text (Text.asciiLower value)
    | value => value : Value).equal (.text "running"))

/-- `COALESCE(host_name, '')`. -/
def hostOrEmpty (row : Row) : Value := if row hostName = .null then .text "" else row hostName

def jobRunsTable : StoreTable where
  name := jobRunsName
  columns := [⟨logId, 1⟩, ⟨claimKey, 0⟩, ⟨hostName, 0⟩, ⟨status, 0⟩]
  indexes := [.created uxJobRunsClaim true [.column claimKey false, .expression hostOrEmpty false] (some claims)]

def finishedRun (id : Int) (column : Identifier) : Value :=
  if column = logId then .integer id
  else if column = claimKey then .text "nightly-full"
  else if column = status then .text "ok"
  else .null

/-- Two finished runs of one job are refused where the store is migrated to. -/
theorem claim_refuses_finished_runs : ¬ PreservesUniqueness [jobRunsTable] := by
  intro preserves
  have same := accept_same_iff.mp preserves jobRunsName (finishedRun 1) (finishedRun 2)
  have uniques : uniquesOf [jobRunsTable] jobRunsName =
      [([.column logId false], none), ([.column claimKey false, .expression hostOrEmpty false], some claims)] := by
    simp [uniquesOf, StoreTable.uniques, pkColumns, jobRunsTable, Index.uniqueRule]
  rw [refused_postgres_iff, refused_sqlite_iff, uniques] at same
  obtain ⟨unique, member, refuses⟩ := same.mpr
    ⟨_, List.mem_cons_of_mem _ List.mem_cons_self, by simp [namedColumns], by
      rw [refuses_columnRule]
      intro column named
      obtain rfl : column = claimKey := by simpa [namedColumns] using named
      decide +kernel⟩
  simp only [List.mem_cons, List.not_mem_nil, or_false] at member
  rcases member with rfl | rfl
  · have equal := refuses.2.2 _ List.mem_cons_self
    revert equal
    decide +kernel
  · have running := refuses.1
    revert running
    decide +kernel

end Preserved

end DbaBrain.Db.SqliteToPostgres
