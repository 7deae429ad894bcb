import DbaBrain.Foundation.Json
import DbaBrain.Foundation.Table

/-!
# Tables of an SQL store

Values, the three-valued conditions a `CHECK` is made of, and tables whose rows
keep their columns' constraints.  A write is refused when the row it would leave
breaks one; a write-once column refuses every update that would change it.
What a column stores of a value bound to it is the backend's, given with the
laws the two backends share.
-/

namespace DbaBrain.Foundation.Sql

/-- A value a column holds, or a parameter binds. -/
inductive Value
  | null
  | integer (value : Int)
  | real (value : ℚ)
  | text (value : String)
  deriving DecidableEq

/-! ## Conditions -/

/-- A condition is unknown where it hangs on a NULL. -/
abbrev Truth := Option Bool

namespace Truth

def or : Truth → Truth → Truth
  | some true, _ | _, some true => some true
  | some false, some false => some false
  | _, _ => none

def and : Truth → Truth → Truth
  | some false, _ | _, some false => some false
  | some true, some true => some true
  | _, _ => none

/-- A `CHECK` refuses what is false, and only that. -/
def Passes (truth : Truth) : Prop := truth ≠ some false

instance (truth : Truth) : Decidable truth.Passes := inferInstanceAs (Decidable (truth ≠ some false))

variable {first second : Truth}

theorem or_passes (passes : (first.or second).Passes) : first.Passes ∨ second.Passes := by
  rcases first with _ | first <;> rcases second with _ | second
  · exact Or.inl (by decide)
  · exact Or.inl (by decide)
  · exact Or.inr (by decide)
  · cases first <;> cases second
    · exact absurd rfl passes
    · exact Or.inr (by decide)
    · exact Or.inl (by decide)
    · exact Or.inl (by decide)

theorem and_passes (passes : (first.and second).Passes) : first.Passes ∧ second.Passes := by
  constructor
  · rintro rfl
    exact passes rfl
  · rintro rfl
    refine passes ?_
    rcases first with _ | first
    · rfl
    · cases first <;> rfl

end Truth

namespace Value

def isNull (value : Value) : Truth := some (value = .null)

def isSet (value : Value) : Truth := some (value ≠ .null)

/-- `=`: numbers by what they count, and a number is no text. -/
def equal : Value → Value → Truth
  | .null, _ | _, .null => none
  | .integer first, .integer second => some (first = second)
  | .integer first, .real second => some ((first : ℚ) = second)
  | .real first, .integer second => some (first = (second : ℚ))
  | .real first, .real second => some (first = second)
  | .text first, .text second => some (first = second)
  | .integer _, .text _ | .real _, .text _ | .text _, .integer _ | .text _, .real _ => some false

/-- `IN` a list of texts. -/
def oneOf (allowed : List String) : Value → Truth
  | .null => none
  | .text value => some (value ∈ allowed)
  | .integer _ | .real _ => some false

/-- `>=` a number; a text is above every number. -/
def atLeast (bound : Int) : Value → Truth
  | .null => none
  | .integer value => some (bound ≤ value)
  | .real value => some ((bound : ℚ) ≤ value)
  | .text _ => some true

/-- `<=` another column. -/
def atMost : Value → Value → Truth
  | .null, _ | _, .null => none
  | .integer first, .integer second => some (first ≤ second)
  | .integer first, .real second => some ((first : ℚ) ≤ second)
  | .real first, .integer second => some (first ≤ (second : ℚ))
  | .real first, .real second => some (first ≤ second)
  | .text first, .text second => some (first ≤ second)
  | .integer _, .text _ | .real _, .text _ => some true
  | .text _, .integer _ | .text _, .real _ => some false

/-- `IN (0, 1)`. -/
def isFlag : Value → Truth
  | .null => none
  | .integer value => some (value = 0 ∨ value = 1)
  | .real value => some (value = 0 ∨ value = 1)
  | .text _ => some false

/-- `+ 1`, of a number. -/
def succ : Value → Value
  | .integer value => .integer (value + 1)
  | .real value => .real (value + 1)
  | .null | .text _ => .null

/-- `length(...) = n`, of a text. -/
def hasLength (length : Nat) : Value → Truth
  | .null => none
  | .text value => some (value.length = length)
  | .integer _ | .real _ => some false

/-- `COALESCE` of two. -/
def orElse (first second : Value) : Value := if first = .null then second else first

variable {value : Value}

theorem oneOf_passes {allowed : List String} (passes : (oneOf allowed value).Passes) :
    value = .null ∨ ∃ word ∈ allowed, value = .text word := by
  cases value with
  | null => exact Or.inl rfl
  | integer number => exact absurd rfl passes
  | real number => exact absurd rfl passes
  | text word =>
    refine Or.inr ⟨word, ?_, rfl⟩
    by_contra absent
    exact passes (by simp [oneOf, absent])

theorem isSet_passes : (isSet value).Passes ↔ value ≠ .null := by
  by_cases missing : value = .null
  · simp [isSet, Truth.Passes, missing]
  · simp [isSet, Truth.Passes, missing]

theorem isNull_passes : (isNull value).Passes ↔ value = .null := by
  by_cases missing : value = .null
  · simp [isNull, Truth.Passes, missing]
  · simp [isNull, Truth.Passes, missing]

end Value

/-! ## What a column stores -/

inductive Affinity
  | text
  | integer

/-- What a column of each kind stores of a value bound to it, or nothing where the bind is refused. -/
structure Storage where
  bind : Affinity → Value → Option Value
  bind_null : ∀ affinity, bind affinity .null = some .null
  bind_text : ∀ word, bind .text (.text word) = some (.text word)
  eq_null : ∀ {affinity value}, bind affinity value = some .null → value = .null
  eq_empty : ∀ {affinity value}, bind affinity value = some (.text "") → value = .text ""
  textual : ∀ {value held}, bind .text value = some held → held = .null ∨ ∃ word, held = .text word
  /-- Two stored values the store compares equal are one value. -/
  canonical : ∀ {affinity value other held kept}, bind affinity value = some held →
    bind affinity other = some kept → held.equal kept = some true → held = kept

/-- The texts and numbers SQLite turns into each other. -/
structure Conversions where
  realText : ℚ → String
  realText_ne : ∀ value, realText value ≠ ""
  numberOf : String → Option ℚ

/-- An integer of 64 bits. -/
def Fits (value : Int) : Prop := -9223372036854775808 ≤ value ∧ value ≤ 9223372036854775807

instance (value : Int) : Decidable (Fits value) := inferInstanceAs (Decidable (_ ∧ _))

def number (value : ℚ) : Value :=
  if value.den = 1 ∧ Fits value.num then .integer value.num else .real value

def sqliteBind (conversions : Conversions) : Affinity → Value → Option Value
  | _, .null => some .null
  | .text, .text word => some (.text word)
  | .text, .real value => some (.text (conversions.realText value))
  | .text, .integer value => if Fits value then some (.text value.repr) else none
  | .integer, .integer value => if Fits value then some (.integer value) else none
  | .integer, .real value => some (number value)
  | .integer, .text word =>
      match conversions.numberOf word with
      | none => some (.text word)
      | some value => some (number value)

theorem number_cases (value : ℚ) : (∃ whole, Fits whole ∧ number value = .integer whole) ∨
    ∃ broken : ℚ, ¬(broken.den = 1 ∧ Fits broken.num) ∧ number value = .real broken := by
  rw [number]
  split
  · rename_i whole
    exact Or.inl ⟨value.num, whole.2, rfl⟩
  · rename_i broken
    exact Or.inr ⟨value, broken, rfl⟩

section Sqlite

variable {conversions : Conversions} {value held : Value}

/-- What a TEXT column holds. -/
theorem text_of_bind (bound : sqliteBind conversions .text value = some held) :
    (value = .null ∧ held = .null) ∨ ∃ word, held = .text word ∧ (word = "" → value = .text "") := by
  cases value with
  | null => exact Or.inl ⟨rfl, (Option.some.inj bound).symm⟩
  | integer value =>
    rw [sqliteBind] at bound
    split at bound
    · refine Or.inr ⟨_, (Option.some.inj bound).symm, ?_⟩
      intro empty
      exact absurd (congrArg String.toList empty) (Json.repr_ne_nil value)
    · cases bound
  | real value =>
    refine Or.inr ⟨_, (Option.some.inj bound).symm, ?_⟩
    intro empty
    exact absurd empty (conversions.realText_ne value)
  | text word =>
    refine Or.inr ⟨_, (Option.some.inj bound).symm, ?_⟩
    rintro rfl
    rfl

/-- What an INTEGER column holds: a real it keeps is no integer it could keep. -/
theorem integer_of_bind (bound : sqliteBind conversions .integer value = some held) :
    (value = .null ∧ held = .null) ∨ (∃ whole, Fits whole ∧ held = .integer whole) ∨
      (∃ broken : ℚ, ¬(broken.den = 1 ∧ Fits broken.num) ∧ held = .real broken) ∨
        ∃ word, value = .text word ∧ held = .text word := by
  cases value with
  | null => exact Or.inl ⟨rfl, (Option.some.inj bound).symm⟩
  | integer value =>
    rw [sqliteBind] at bound
    split at bound
    · rename_i fits
      exact Or.inr (Or.inl ⟨value, fits, (Option.some.inj bound).symm⟩)
    · cases bound
  | real value =>
    obtain rfl := Option.some.inj bound
    rcases number_cases value with whole | broken
    · exact Or.inr (Or.inl whole)
    · exact Or.inr (Or.inr (Or.inl broken))
  | text word =>
    rw [sqliteBind] at bound
    split at bound
    · exact Or.inr (Or.inr (Or.inr ⟨word, rfl, (Option.some.inj bound).symm⟩))
    · rename_i value _
      obtain rfl := Option.some.inj bound
      rcases number_cases value with whole | broken
      · exact Or.inr (Or.inl whole)
      · exact Or.inr (Or.inr (Or.inl broken))

variable {affinity : Affinity}

theorem eq_null_of_bind (bound : sqliteBind conversions affinity value = some .null) : value = .null := by
  cases affinity with
  | text =>
    rcases text_of_bind bound with ⟨rfl, _⟩ | ⟨_, held, _⟩
    · rfl
    · cases held
  | integer =>
    rcases integer_of_bind bound with ⟨rfl, _⟩ | ⟨_, _, held⟩ | ⟨_, _, held⟩ | ⟨_, _, held⟩
    · rfl
    · cases held
    · cases held
    · cases held

theorem eq_empty_of_bind (bound : sqliteBind conversions affinity value = some (.text "")) : value = .text "" := by
  cases affinity with
  | text =>
    rcases text_of_bind bound with ⟨_, held⟩ | ⟨word, held, empty⟩
    · cases held
    · exact empty (Value.text.inj held).symm
  | integer =>
    rcases integer_of_bind bound with ⟨_, held⟩ | ⟨_, _, held⟩ | ⟨_, _, held⟩ | ⟨word, rfl, held⟩
    · cases held
    · cases held
    · cases held
    · exact held.symm

theorem eq_of_bind {other kept : Value} (bound : sqliteBind conversions affinity value = some held)
    (bound' : sqliteBind conversions affinity other = some kept) (same : held.equal kept = some true) :
    held = kept := by
  cases affinity with
  | text =>
    rcases text_of_bind bound with ⟨_, rfl⟩ | ⟨word, rfl, _⟩
    · cases same
    · rcases text_of_bind bound' with ⟨_, rfl⟩ | ⟨word', rfl, _⟩
      · cases same
      · simpa [Value.equal] using same
  | integer =>
    have apart {whole : Int} {broken : ℚ} (fits : Fits whole) (other : ¬(broken.den = 1 ∧ Fits broken.num)) :
        (whole : ℚ) ≠ broken := by
      rintro rfl
      exact other ⟨Rat.den_intCast whole, by rwa [Rat.num_intCast]⟩
    rcases integer_of_bind bound with ⟨_, rfl⟩ | ⟨whole, fits, rfl⟩ | ⟨broken, other, rfl⟩ | ⟨word, _, rfl⟩ <;>
      rcases integer_of_bind bound' with ⟨_, rfl⟩ | ⟨whole', fits', rfl⟩ | ⟨broken', other', rfl⟩ | ⟨word', _, rfl⟩ <;>
      simp only [Value.equal, Option.some.injEq, decide_eq_true_eq, reduceCtorEq] at same
    · rw [same]
    · exact absurd same (apart fits other')
    · exact absurd same.symm (apart fits' other)
    · rw [same]
    · rw [same]

end Sqlite

/-- SQLite's type affinities. -/
def sqlite (conversions : Conversions) : Storage where
  bind := sqliteBind conversions
  bind_null affinity := by cases affinity <;> rfl
  bind_text _ := rfl
  eq_null := eq_null_of_bind
  eq_empty := eq_empty_of_bind
  textual bound := (text_of_bind bound).imp And.right fun ⟨word, held, _⟩ => ⟨word, held⟩
  canonical := eq_of_bind

/-! ## Tables -/

/-- A condition on a row. -/
abbrev Check (κ : Type) := (κ → Value) → Truth

section Checks

variable {κ : Type}

/-- `column IN ('a', 'b')`. -/
def listed (column : κ) (allowed : List String) : Check κ := fun row => (row column).oneOf allowed

/-- `column IS NULL OR ...`. -/
def nullOr (column : κ) (check : Check κ) : Check κ := fun row => (row column).isNull.or (check row)

def least (column : κ) (bound : Int) : Check κ := fun row => (row column).atLeast bound

/-- `column IN (0, 1)`. -/
def flag (column : κ) : Check κ := fun row => (row column).isFlag

def textLength (column : κ) (length : Nat) : Check κ := fun row => (row column).hasLength length

/-- The key of a unique index over `columns`. -/
def keyOf (columns : List κ) (row : κ → Value) : Option (List Value) :=
  if ∀ column ∈ columns, row column ≠ .null then some (columns.map row) else none

end Checks

/-- What a write names: its columns, and the value bound to each. -/
abbrev Values (κ : Type) := κ → Option Value

/-- A table as it is declared. -/
structure Schema (κ : Type) where
  columns : List κ
  complete : ∀ column, column ∈ columns
  affinity : κ → Affinity
  /-- `NOT NULL`. -/
  required : List κ
  /-- The default of a column an insert does not name, at the store's own clock. -/
  default : String → κ → Value
  checks : List ((κ → Value) → Truth)
  /-- The unique indexes: a row's key, where the index covers the row and no part of the key is NULL. -/
  unique : List ((κ → Value) → Option (List Value))
  /-- The columns the update trigger guards, empty in a row that does not name them. -/
  firsts : List κ
  firsts_default : ∀ column ∈ firsts, ∀ now, default now column = .null

namespace Schema

variable {κ : Type} (schema : Schema κ) (storage : Storage)

def Holds (column : κ) (value : Value) : Prop :=
  (∃ given, storage.bind (schema.affinity column) given = some value) ∨ ∃ now, value = schema.default now column

structure Valid (row : κ → Value) : Prop where
  required : ∀ column ∈ schema.required, row column ≠ .null
  checks : ∀ check ∈ schema.checks, (check row).Passes

instance (row : κ → Value) : Decidable (schema.Valid row) :=
  decidable_of_iff ((∀ column ∈ schema.required, row column ≠ .null) ∧ ∀ check ∈ schema.checks, (check row).Passes)
    ⟨fun ⟨required, checks⟩ => ⟨required, checks⟩, fun valid => ⟨valid.required, valid.checks⟩⟩

/-- Every value the write names can be bound to its column. -/
def Binds (values : Values κ) : Prop :=
  ∀ column ∈ schema.columns, ∀ value ∈ values column, (storage.bind (schema.affinity column) value).isSome = true

instance (values : Values κ) : Decidable (schema.Binds storage values) :=
  inferInstanceAs (Decidable (∀ column ∈ schema.columns, ∀ value ∈ values column,
    (storage.bind (schema.affinity column) value).isSome = true))

/-- The row an insert of `values` leaves: a column it does not name, or names with NULL, has its default. -/
def inserted (now : String) (values : Values κ) (column : κ) : Value :=
  match values column with
  | none | some .null => schema.default now column
  | some value => (storage.bind (schema.affinity column) value).getD .null

/-- The row an update by `values` leaves. -/
def updated (values : Values κ) (old : κ → Value) (column : κ) : Value :=
  match values column with
  | none => old column
  | some value => (storage.bind (schema.affinity column) value).getD .null

variable {values : Values κ}
variable {column : κ}

theorem getD_bind (binds : schema.Binds storage values) {value : Value} (named : values column = some value) :
    storage.bind (schema.affinity column) value =
      some ((storage.bind (schema.affinity column) value).getD .null) := by
  obtain ⟨held, bound⟩ := Option.isSome_iff_exists.mp (binds column (schema.complete column) value named)
  rw [bound, Option.getD_some]

theorem holds_inserted (binds : schema.Binds storage values) (now : String) (column : κ) :
    schema.Holds storage column (schema.inserted storage now values column) := by
  rw [inserted]
  split
  · exact Or.inr ⟨now, rfl⟩
  · exact Or.inr ⟨now, rfl⟩
  · rename_i value _ named
    exact Or.inl ⟨value, getD_bind schema storage binds named⟩

theorem holds_updated (binds : schema.Binds storage values) {old : κ → Value}
    (held : schema.Holds storage column (old column)) :
    schema.Holds storage column (schema.updated storage values old column) := by
  rw [updated]
  split
  · exact held
  · rename_i value named
    exact Or.inl ⟨value, getD_bind schema storage binds named⟩

section Written

variable {values : Values κ} {column : κ} {value : Value}

theorem inserted_of_null (null : (values column).getD .null = .null) (now : String) :
    schema.inserted storage now values column = schema.default now column := by
  rw [inserted]
  split
  · rfl
  · rfl
  · rename_i value other named
    rw [named, Option.getD_some] at null
    exact absurd null other

theorem bind_inserted (binds : schema.Binds storage values) (set : (values column).getD .null ≠ .null) (now : String) :
    storage.bind (schema.affinity column) ((values column).getD .null) =
      some (schema.inserted storage now values column) := by
  rw [inserted]
  split
  · rename_i unnamed
    exact absurd (by rw [unnamed]; rfl) set
  · rename_i null
    exact absurd (by rw [null]; rfl) set
  · rename_i value _ named
    rw [named, Option.getD_some]
    exact getD_bind schema storage binds named

theorem updated_of_none (unnamed : values column = none) (old : κ → Value) :
    schema.updated storage values old column = old column := by
  rw [updated, unnamed]

theorem bind_updated (binds : schema.Binds storage values) (named : values column = some value) (old : κ → Value) :
    storage.bind (schema.affinity column) value = some (schema.updated storage values old column) := by
  rw [updated, named]
  exact getD_bind schema storage binds named

end Written

/-- The update trigger: no guarded value is replaced by another, or by NULL. -/
def KeepsFirsts (old new : κ → Value) : Prop :=
  ∀ column ∈ schema.firsts, old column ≠ .null → (new column).equal (old column) = some true

instance (old new : κ → Value) : Decidable (schema.KeepsFirsts old new) :=
  inferInstanceAs (Decidable (∀ column ∈ schema.firsts, old column ≠ .null → (new column).equal (old column) = some true))

end Schema

/-- A table's rows by id, each valid, no two with one key of a unique index. -/
structure Rows {κ : Type} (storage : Storage) (schema : Schema κ) where
  rows : List (Int × (κ → Value))
  next : Int
  ordered : (rows.map Prod.fst).Pairwise (· < ·)
  below : ∀ entry ∈ rows, entry.1 < next
  valid : ∀ entry ∈ rows, schema.Valid entry.2
  held : ∀ entry ∈ rows, ∀ column, schema.Holds storage column (entry.2 column)
  distinct : ∀ index ∈ schema.unique, (rows.filterMap fun entry => index entry.2).Nodup

namespace Rows

variable {κ : Type} {schema : Schema κ} {storage : Storage}

def empty : Rows storage schema := ⟨[], 1, List.Pairwise.nil, by simp, by simp, by simp, by simp⟩

variable {table : Rows storage schema} {id : Int} {row : κ → Value} {column : κ} {after : Rows storage schema}

theorem mem_of_get? (found : (table.rows.find? fun entry => entry.1 = id).map Prod.snd = some row) :
    (id, row) ∈ table.rows := by
  obtain ⟨⟨other, held⟩, there, rfl⟩ := Option.map_eq_some_iff.mp found
  have same : other = id := by simpa using List.find?_some there
  exact same ▸ List.mem_of_find?_eq_some there

def get? (table : Rows storage schema) (id : Int) : Option (κ → Value) :=
  (table.rows.find? fun entry => entry.1 = id).map Prod.snd

/-- `INSERT`: the new row and its id, or nothing where the store refuses it. -/
def insert? (now : String) (values : Values κ) (table : Rows storage schema) :
    Option (Int × Rows storage schema) :=
  let row := schema.inserted storage now values
  if fits : schema.Binds storage values ∧ schema.Valid row ∧
      ∀ index ∈ schema.unique, ((table.rows ++ [(table.next, row)]).filterMap fun entry => index entry.2).Nodup then
    some (table.next,
      { rows := table.rows ++ [(table.next, row)]
        next := table.next + 1
        ordered := by
          rw [List.map_append, List.pairwise_append]
          refine ⟨table.ordered, List.pairwise_singleton _ _, ?_⟩
          intro id member other single
          obtain ⟨entry, present, rfl⟩ := List.mem_map.mp member
          rw [List.map_singleton, List.mem_singleton] at single
          exact single ▸ table.below entry present
        below := by
          intro entry member
          rcases List.mem_append.mp member with earlier | single
          · exact (table.below entry earlier).trans (lt_add_one _)
          · rw [List.mem_singleton] at single
            exact single ▸ lt_add_one _
        valid := by
          intro entry member
          rcases List.mem_append.mp member with earlier | single
          · exact table.valid entry earlier
          · rw [List.mem_singleton] at single
            exact single ▸ fits.2.1
        held := by
          intro entry member
          rcases List.mem_append.mp member with earlier | single
          · exact table.held entry earlier
          · rw [List.mem_singleton] at single
            exact single ▸ schema.holds_inserted storage fits.1 now
        distinct := fits.2.2 })
  else none

def replaced (table : Rows storage schema) (id : Int) (row : κ → Value) : List (Int × (κ → Value)) :=
  table.rows.map fun entry => if entry.1 = id then (id, row) else entry

theorem replaced_ids (table : Rows storage schema) (id : Int) (row : κ → Value) :
    (table.replaced id row).map Prod.fst = table.rows.map Prod.fst := by
  rw [replaced, List.map_map]
  apply List.map_congr_left
  intro entry _
  rw [Function.comp_apply]
  split
  · rename_i same
    exact same.symm
  · rfl

/-- `UPDATE ... WHERE` the id: no row is no change. -/
def update? (id : Int) (values : Values κ) (table : Rows storage schema) : Option (Rows storage schema) :=
  match found : table.get? id with
  | none => if schema.Binds storage values then some table else none
  | some old =>
      let row := schema.updated storage values old
      if fits : schema.Binds storage values ∧ schema.KeepsFirsts old row ∧ schema.Valid row ∧
          ∀ index ∈ schema.unique, ((table.replaced id row).filterMap fun entry => index entry.2).Nodup then
        some
          { rows := table.replaced id row
            next := table.next
            ordered := by
              rw [replaced_ids]
              exact table.ordered
            below := by
              intro entry member
              have inIds : entry.1 ∈ (table.replaced id row).map Prod.fst := List.mem_map_of_mem member
              rw [replaced_ids] at inIds
              obtain ⟨other, present, same⟩ := List.mem_map.mp inIds
              exact same ▸ table.below other present
            valid := by
              intro entry member
              obtain ⟨other, present, rfl⟩ := List.mem_map.mp member
              split
              · exact fits.2.2.1
              · exact table.valid other present
            held := by
              intro entry member column
              obtain ⟨other, present, rfl⟩ := List.mem_map.mp member
              split
              · exact schema.holds_updated storage fits.1 (table.held (id, old) (mem_of_get? found) column)
              · exact table.held other present column
            distinct := fits.2.2.2 }
      else none

/-- The rows of a transaction that is rolled back are gone; their ids are not used again. -/
def without (table : Rows storage schema) (gone : Int → Bool) : Rows storage schema where
  rows := table.rows.filter fun entry => gone entry.1 = false
  next := table.next
  ordered := table.ordered.sublist (List.filter_sublist.map Prod.fst)
  below entry member := table.below entry (List.mem_filter.mp member).1
  valid entry member := table.valid entry (List.mem_filter.mp member).1
  held entry member := table.held entry (List.mem_filter.mp member).1
  distinct index member := (table.distinct index member).sublist (List.filter_sublist.filterMap _)

/-! ### What the writes leave -/

section Spec

variable {table after : Rows storage schema} {now : String} {values : Values κ} {id : Int} {row : κ → Value}

theorem get?_eq_some_iff : table.get? id = some row ↔ (id, row) ∈ table.rows := by
  constructor
  · exact mem_of_get?
  · intro member
    rw [get?, Option.map_eq_some_iff]
    cases found : table.rows.find? fun entry => entry.1 = id with
    | none => simpa using List.find?_eq_none.mp found (id, row) member
    | some entry =>
      have same : entry.1 = id := by simpa using List.find?_some found
      have nodup : (table.rows.map Prod.fst).Nodup := table.ordered.imp fun less => less.ne
      have one := List.inj_on_of_nodup_map nodup (List.mem_of_find?_eq_some found) member same
      exact ⟨entry, rfl, by rw [one]⟩

theorem lt_next_of_get? (found : table.get? id = some row) : id < table.next :=
  table.below (id, row) (get?_eq_some_iff.mp found)

theorem valid_of_get? (found : table.get? id = some row) : schema.Valid row :=
  table.valid (id, row) (get?_eq_some_iff.mp found)

@[simp]
theorem get?_empty (id : Int) : (empty : Rows storage schema).get? id = none := rfl

/-- What an insert did. -/
structure Inserted (now : String) (values : Values κ) (table after : Rows storage schema) : Prop where
  rows : after.rows = table.rows ++ [(table.next, schema.inserted storage now values)]
  next : after.next = table.next + 1
  binds : schema.Binds storage values
  valid : schema.Valid (schema.inserted storage now values)

theorem inserted_of_insert? (ran : table.insert? now values = some (id, after)) :
    id = table.next ∧ Inserted now values table after := by
  rw [insert?] at ran
  split at ran
  · rename_i fits
    cases ran
    exact ⟨rfl, rfl, rfl, fits.1, fits.2.1⟩
  · cases ran

variable {entry : Int × (κ → Value)}

theorem eq_of_index_eq {index : (κ → Value) → Option (List Value)} (listed : index ∈ schema.unique)
    {other : Int × (κ → Value)} (member : entry ∈ table.rows) (present : other ∈ table.rows) {key : List Value}
    (covered : index entry.2 = some key) (same : index other.2 = some key) : entry = other :=
  Foundation.Table.eq_of_nodup_filterMap (table.distinct index listed) member present covered same

/-- A row that meets its columns' constraints is refused for a key another row has, and for nothing else. -/
theorem insert?_eq_none_iff (binds : schema.Binds storage values)
    (valid : schema.Valid (schema.inserted storage now values)) :
    table.insert? now values = none ↔ ∃ index ∈ schema.unique, ∃ key,
      index (schema.inserted storage now values) = some key ∧ ∃ entry ∈ table.rows, index entry.2 = some key := by
  have accepted : table.insert? now values = none ↔ ¬ ∀ index ∈ schema.unique,
      ((table.rows ++ [(table.next, schema.inserted storage now values)]).filterMap fun entry => index entry.2).Nodup := by
    simp [insert?, binds, valid]
  rw [accepted]
  push Not
  refine exists_congr fun index => and_congr_right fun listed => ?_
  have once := table.distinct index listed
  cases covered : index (schema.inserted storage now values) with
  | none => simp [covered, once]
  | some key => simp [covered, List.nodup_append, once]

theorem Inserted.get? (inserted : Inserted now values table after) (id : Int) :
    after.get? id = if id = table.next then some (schema.inserted storage now values) else table.get? id := by
  split
  · rename_i same
    rw [get?_eq_some_iff, inserted.rows, same]
    exact List.mem_append_right _ (List.mem_singleton_self _)
  · rename_i other
    apply Option.ext
    intro row
    rw [get?_eq_some_iff, get?_eq_some_iff, inserted.rows, List.mem_append, List.mem_singleton, Prod.mk.injEq]
    exact or_iff_left fun same => other same.1

/-- What an update of a row that is there did. -/
structure Updated (id : Int) (values : Values κ) (old : κ → Value) (table after : Rows storage schema) :
    Prop where
  found : table.get? id = some old
  rows : after.rows = table.replaced id (schema.updated storage values old)
  next : after.next = table.next
  binds : schema.Binds storage values
  firsts : schema.KeepsFirsts old (schema.updated storage values old)
  valid : schema.Valid (schema.updated storage values old)

theorem updated_of_update? (ran : table.update? id values = some after) :
    (table.get? id = none ∧ after = table) ∨ ∃ old, Updated id values old table after := by
  rw [update?] at ran
  split at ran
  · rename_i absent
    split at ran
    · cases ran
      exact Or.inl ⟨absent, rfl⟩
    · cases ran
  · rename_i old found
    dsimp only at ran
    split at ran
    · rename_i fits
      cases ran
      exact Or.inr ⟨old, found, rfl, rfl, fits.1, fits.2.1, fits.2.2.1⟩
    · cases ran

theorem mem_replaced (found : (table.get? id).isSome = true) :
    entry ∈ table.replaced id row ↔ entry = (id, row) ∨ entry ∈ table.rows ∧ entry.1 ≠ id := by
  rw [replaced, List.mem_map]
  constructor
  · rintro ⟨other, present, rfl⟩
    split
    · exact Or.inl rfl
    · rename_i apart
      exact Or.inr ⟨present, apart⟩
  · rintro (rfl | ⟨present, apart⟩)
    · obtain ⟨old, held⟩ := Option.isSome_iff_exists.mp found
      exact ⟨(id, old), get?_eq_some_iff.mp held, if_pos rfl⟩
    · exact ⟨entry, present, if_neg apart⟩

theorem Updated.get? {old : κ → Value} (updated : Updated id values old table after) (other : Int) :
    after.get? other = if other = id then some (schema.updated storage values old) else table.get? other := by
  have there : (table.get? id).isSome = true := by rw [updated.found]; rfl
  split
  · rename_i same
    rw [get?_eq_some_iff, updated.rows, same]
    exact (mem_replaced there).mpr (Or.inl rfl)
  · rename_i apart
    apply Option.ext
    intro row
    rw [get?_eq_some_iff, get?_eq_some_iff, updated.rows, mem_replaced there]
    constructor
    · rintro (same | ⟨present, _⟩)
      · exact absurd (congrArg Prod.fst same) apart
      · exact present
    · intro present
      exact Or.inr ⟨present, apart⟩

end Spec

theorem rows_pairwise (table : Rows storage schema) :
    table.rows.Pairwise fun first second => first.1 < second.1 := List.pairwise_map.mp table.ordered

/-- Rows other than the one replaced stay. -/
theorem filter_replaced (keep : Int → Bool) (dropped : keep id = false) :
    ((table.replaced id row).filter fun entry => keep entry.1) = table.rows.filter fun entry => keep entry.1 := by
  rw [replaced, List.filter_map]
  have kept : table.rows.filter ((fun entry => keep entry.1) ∘ fun entry => if entry.1 = id then (id, row) else entry) =
      table.rows.filter fun entry => keep entry.1 := by
    apply List.filter_congr
    intro entry _
    rw [Function.comp_apply]
    split
    · rename_i same
      rw [same]
    · rfl
  rw [kept]
  have apart : (table.rows.filter fun entry => keep entry.1).map (fun entry => if entry.1 = id then (id, row) else entry) =
      (table.rows.filter fun entry => keep entry.1).map fun entry => entry := by
    apply List.map_congr_left
    intro entry member
    refine if_neg ?_
    rintro rfl
    rw [List.mem_filter, dropped] at member
    exact absurd member.2 (by simp)
  rw [apart, List.map_id']

theorem get?_without (table : Rows storage schema) (gone : Int → Bool) (id : Int) :
    (table.without gone).get? id = if gone id then none else table.get? id := by
  apply Option.ext
  intro row
  rw [get?_eq_some_iff, without, List.mem_filter]
  cases kept : gone id with
  | true => simp
  | false => simp [get?_eq_some_iff]

theorem textual_of_get? (found : table.get? id = some row) (affinity : schema.affinity column = .text)
    (default : ∀ now, schema.default now column = .null ∨ ∃ word, schema.default now column = .text word) :
    row column = .null ∨ ∃ word, row column = .text word := by
  rcases table.held (id, row) (get?_eq_some_iff.mp found) column with ⟨given, bound⟩ | ⟨now, same⟩
  · rw [affinity] at bound
    exact storage.textual bound
  · have same : row column = schema.default now column := same
    rw [same]
    exact default now

/-! ### Sequences of writes -/

/-- One statement on a table. -/
inductive Write (κ : Type)
  | insert (now : String) (values : Values κ)
  | update (id : Int) (values : Values κ)

def write? (table : Rows storage schema) : Write κ → Option (Rows storage schema)
  | .insert now values => (table.insert? now values).map Prod.snd
  | .update id values => table.update? id values

/-- What a sequence of writes of one kind leaves. -/
inductive Written (kind : Write κ → Prop) : Rows storage schema → Rows storage schema → Prop
  | refl (table : Rows storage schema) : Written kind table table
  | step {table between after : Rows storage schema} {write : Write κ} (allowed : kind write)
      (ran : table.write? write = some between) (rest : Written kind between after) : Written kind table after

namespace Written

variable {kind other : Write κ → Prop} {table between after : Rows storage schema}

theorem one {write : Write κ} (allowed : kind write) (ran : table.write? write = some after) :
    Written kind table after := .step allowed ran (.refl after)

theorem trans (earlier : Written kind table between) (later : Written kind between after) :
    Written kind table after := by
  induction earlier with
  | refl => exact later
  | step allowed ran _ ih => exact .step allowed ran (ih later)

theorem preserves {invariant : Rows storage schema → Prop}
    (each : ∀ table write next, kind write → table.write? write = some next → invariant table → invariant next)
    (written : Written kind table after) (initial : invariant table) : invariant after := by
  induction written with
  | refl => exact initial
  | step allowed ran _ ih => exact ih (each _ _ _ allowed ran initial)

end Written

/-- No row is lost, and every guarded value that is there is kept. -/
def KeepsFirstValues (table after : Rows storage schema) : Prop :=
  ∀ id row, table.get? id = some row → ∃ kept, after.get? id = some kept ∧
    ∀ column ∈ schema.firsts, row column ≠ .null → kept column = row column

theorem KeepsFirstValues.refl (table : Rows storage schema) : KeepsFirstValues table table :=
  fun _ row found => ⟨row, found, fun _ _ _ => rfl⟩

theorem KeepsFirstValues.trans {between : Rows storage schema} (earlier : KeepsFirstValues table between)
    (later : KeepsFirstValues between after) : KeepsFirstValues table after := by
  intro id row found
  obtain ⟨kept, foundKept, same⟩ := earlier id row found
  obtain ⟨last, foundLast, same'⟩ := later id kept foundKept
  refine ⟨last, foundLast, ?_⟩
  intro column first there
  have equal := same column first there
  rw [← equal] at there
  exact (same' column first there).trans equal

/-- A guarded value that is there was bound. -/
theorem bound_of_first (found : table.get? id = some row) (first : column ∈ schema.firsts) :
    ∃ given, storage.bind (schema.affinity column) given = some (row column) := by
  rcases table.held (id, row) (get?_eq_some_iff.mp found) column with bound | ⟨now, default⟩
  · exact bound
  · dsimp only at default
    rw [default, schema.firsts_default column first now]
    exact ⟨.null, storage.bind_null _⟩

theorem Updated.firsts_eq {values : Values κ} {old : κ → Value} (updated : Updated id values old table after)
    (first : column ∈ schema.firsts) (there : old column ≠ .null) :
    schema.updated storage values old column = old column := by
  have found : after.get? id = some (schema.updated storage values old) := by rw [updated.get?, if_pos rfl]
  obtain ⟨given, bound⟩ := bound_of_first found first
  obtain ⟨given', bound'⟩ := bound_of_first updated.found first
  exact storage.canonical bound bound' (updated.firsts column first there)

/-- Whatever a write names, the guarded values that are there are kept. -/
theorem keepsFirstValues_of_write? {write : Write κ} (ran : table.write? write = some after) :
    KeepsFirstValues table after := by
  cases write with
  | insert now values =>
    obtain ⟨⟨id, next⟩, inserted, rfl⟩ := Option.map_eq_some_iff.mp ran
    obtain ⟨_, spec⟩ := inserted_of_insert? inserted
    intro other row found
    refine ⟨row, ?_, fun _ _ _ => rfl⟩
    rw [spec.get?, if_neg (lt_next_of_get? found).ne]
    exact found
  | update id values =>
    rcases updated_of_update? ran with ⟨_, rfl⟩ | ⟨old, spec⟩
    · exact .refl _
    · intro other row found
      by_cases same : other = id
      · subst same
        obtain rfl := Option.some.inj (found.symm.trans spec.found)
        exact ⟨_, by rw [spec.get?, if_pos rfl], fun column first there => spec.firsts_eq first there⟩
      · exact ⟨row, by rw [spec.get?, if_neg same, found], fun _ _ _ => rfl⟩

theorem keepsFirstValues_of_written {kind : Write κ → Prop} (written : Written kind table after) :
    KeepsFirstValues table after := by
  induction written with
  | refl table => exact .refl table
  | step _ ran _ ih => exact (keepsFirstValues_of_write? ran).trans ih

end Rows

end DbaBrain.Foundation.Sql
