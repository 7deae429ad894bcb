import DbaBrain.Foundation.Dict
import DbaBrain.Foundation.Execution
import DbaBrain.Foundation.PyValues

/-!
# How long a directory keeps its backups

`cleanup_retention` is one number of seconds, or an object of windows by file
type.  Both are read into one `Retention`, and a retention is written back as
the value a config states it with.
-/

namespace DbaBrain.Lib.CleanupRetention

open DbaBrain.Foundation DbaBrain.Foundation.Text DbaBrain.Foundation.PyValues
open Execution (bind_eq_ok)

/-! ## The words -/

/-- `FIELD`. -/
def fieldName : String := "cleanup_retention"

/-- Older spellings, with the factor that turns each into seconds. -/
def legacyFields : List (String × Int) := [("target_retention_seconds", 1), ("retention_days", 24 * 3600)]

def defaultSeconds : Int := 8 * 24 * 3600

def keepWord : String := "keep"

/-- What a reader of one number is handed for a kept window. -/
def keepAsSeconds : Int := 100 * 365 * 24 * 3600

def engineFileTypes : List (String × List String) :=
  [("sqlserver", ["FULL", "DIFF", "LOG", "CERT"]),
    ("postgresql", ["FULL_BASE", "INCR_BASE", "MANIFEST", "WAL"]),
    ("oracle", ["RMAN_L0", "RMAN_L1", "ARCHIVELOG", "CONTROLFILE", "SPFILE"])]

def engineAliases : List (String × String) := [("mssql", "sqlserver"), ("postgres", "postgresql")]

def defaultKey : String := "default"

def allFileTypes : List String := engineFileTypes.flatMap Prod.snd

/-- The levels of a listing, and the type that decides each. -/
def levelTypes : List (String × List (String × String)) :=
  [("sqlserver", [("full", "FULL"), ("diff", "DIFF"), ("log", "LOG")]),
    ("postgresql", [("full", "FULL_BASE"), ("diff", "INCR_BASE"), ("log", "WAL")]),
    ("oracle", [("full", "RMAN_L0"), ("diff", "RMAN_L1"), ("log", "RMAN_L0")])]

/-! ## Retentions -/

/-- A directory's windows by file type: `none` keeps, `0` is no age gate. -/
structure Retention where
  windows : Dict String (Option Int)
  default : Option Int
  uniform : Bool

/-- What a value is refused for, with the path it stands at; the last is not a config error. -/
inductive Failure where
  | required (path : String)
  | notWhole (path : String) (days : Bool) (raw : Json)
  | negative (path : String)
  | notWindow (path : String) (value : Json)
  | negativeWindow (path : String)
  | unknownType (path name kind : String) (allowed : List String)
  | noDefault (path : String) (named : List String)
  | overflow

section Reading

variable (python : Python)

/-- `_engine`; an engine that is not stated is the empty text. -/
def engineOf (value : String) : String :=
  let name := python.lower (strip value)
  (engineAliases.lookup name).getD name

namespace Retention

/-- The window of a type: its own, else the default, except that an object that does not name CERT keeps it. -/
def windowFor (retention : Retention) (fileType : String) : Option Int :=
  let kind := python.upper (strip fileType)
  match retention.windows.get? kind with
  | some window => window
  | none => if kind = "CERT" ∧ retention.uniform = false then none else retention.default

def longest (retention : Retention) : Int :=
  let stated := (retention.windows.entries.filter fun entry => entry.1 ≠ "CERT").map Prod.snd ++ [retention.default]
  if none ∈ stated then keepAsSeconds else ((stated.filterMap id).max?).getD 0

def shown (window : Option Int) : Json :=
  match window with
  | none => .string keepWord
  | some seconds => .int seconds

/-- The value as a config states it. -/
def asConfig (retention : Retention) : Json :=
  if retention.uniform then .int (retention.default.getD 0)
  else
    .object (PyValues.set (retention.windows.entries.map fun entry => (entry.1, shown entry.2)) defaultKey
      (shown retention.default))

end Retention

/-- `isinstance(value, str) and value.strip().lower() == KEEP`. -/
def isKeep : Json → Bool
  | .string text => python.lower (strip text) = keepWord
  | _ => false

def window (path : String) (value : Json) : Except Failure (Option Int) :=
  if isKeep python value then .ok none
  else
    match value with
    | .bool _ => .error (.notWindow path value)
    | _ =>
        match python.int value with
        | .error .refused => .error (.notWindow path value)
        | .error .overflow => .error .overflow
        | .ok number => if number < 0 then .error (.negativeWindow path) else .ok (some number)

/-- What the loop over an object's entries holds. -/
structure Stated where
  windows : Dict String (Option Int)
  default : Option Int
  hasDefault : Bool

def allowedTypes (engine : String) : List String := (engineFileTypes.lookup (engineOf python engine)).getD allFileTypes

/-- One entry of an object. -/
def readEntry (context engine : String) (stated : Stated) (entry : String × Json) : Except Failure Stated := do
  let name := strip entry.1
  let path := context ++ "." ++ fieldName ++ "." ++ name
  if python.lower name = defaultKey then
    let seconds ← window python path entry.2
    return { stated with default := seconds, hasDefault := true }
  else
    let upper := python.upper name
    if upper ∈ allowedTypes python engine then
      let seconds ← window python path entry.2
      return { stated with windows := stated.windows.set upper seconds }
    else throw (.unknownType path name (engineOf python engine) (allowedTypes python engine))

def namesEveryType (engine : String) (windows : Dict String (Option Int)) : Bool :=
  match engineFileTypes.lookup (engineOf python engine) with
  | none => false
  | some types => types.all fun kind => kind = "CERT" || (windows.get? kind).isSome

/-- The object form. -/
def parseObject (context engine : String) (entries : Record) : Except Failure Retention := do
  let stated ← entries.foldlM (readEntry python context engine) ⟨.empty, some defaultSeconds, false⟩
  if !stated.hasDefault && !namesEveryType python engine stated.windows then
    throw (.noDefault (context ++ "." ++ fieldName) (stated.windows.entries.map Prod.fst))
  return ⟨stated.windows, stated.default, false⟩

def isNull : Json → Bool
  | .null => true
  | _ => false

/-- The value a record states, with the field it states it in and that field's factor. -/
def rawOf (entry : Record) : Option (Json × String × Int) :=
  ((fieldName, 1) :: legacyFields).findSome? fun source =>
    if isNull (get entry source.1) then none else some (get entry source.1, source)

def parse (entry : Record) (context : String) (required : Bool) : Except Failure Int :=
  match rawOf entry with
  | none => if required then .error (.required (context ++ "." ++ fieldName)) else .ok defaultSeconds
  | some (.object entries, _) => (parseObject python context "" entries).map Retention.longest
  | some (raw, source, factor) =>
      match python.int raw with
      | .error .refused => .error (.notWhole (context ++ "." ++ source) (source = "retention_days") raw)
      | .error .overflow => .error .overflow
      | .ok value => if value < 0 then .error (.negative (context ++ "." ++ source)) else .ok (value * factor)

def parsePerType (entry : Record) (context engine : String) (required : Bool) : Except Failure Retention :=
  match get entry fieldName with
  | .object entries => parseObject python context engine entries
  | _ => (parse python entry context required).map fun seconds => ⟨.empty, some seconds, true⟩

def windowsByLevel (retention : Retention) (engine : String) : Option (List (String × Option Int)) :=
  if retention.uniform then none
  else
    (levelTypes.lookup (engineOf python engine)).map fun levels =>
      levels.map fun level => (level.1, retention.windowFor python level.2)

end Reading

/-! ## What is accepted -/

def NonNegative (window : Option Int) : Prop := ∀ seconds, window = some seconds → 0 ≤ seconds

section Accepted

variable {python : Python}

theorem window_nonNegative {path : String} {value : Json} {found : Option Int}
    (read : window python path value = .ok found) : NonNegative found := by
  unfold window at read
  split at read
  · cases read
    intro seconds kept
    cases kept
  · split at read
    · cases read
    · split at read
      · cases read
      · cases read
      · rename_i number _
        split at read
        · cases read
        · rename_i notLess
          cases read
          intro seconds same
          rw [← Option.some.inj same]
          exact not_lt.mp notLess

/-- What an accepted object's windows are: of the engine's types, none negative. -/
structure ReadOf (python : Python) (engine : String) (stated : Stated) : Prop where
  types : ∀ entry ∈ stated.windows.entries, entry.1 ∈ allowedTypes python engine
  windows : ∀ entry ∈ stated.windows.entries, NonNegative entry.2
  default : NonNegative stated.default

variable {α β ε : Type} {first : Except ε α} {result : β} {after : Stated} {entries : Record} {required : Bool}
  {held : Option Int} {record : Record}

variable {context engine : String} {stated : Stated} {retention : Retention} {entry : Record} {kind : String}

theorem readEntry_readOf {entry : String × Json} (before : ReadOf python engine stated)
    (read : readEntry python context engine stated entry = .ok after) : ReadOf python engine after := by
  unfold readEntry at read
  dsimp only at read
  split at read
  · obtain ⟨seconds, found, read⟩ := bind_eq_ok read
    cases read
    exact ⟨before.types, before.windows, window_nonNegative found⟩
  · split at read
    · rename_i allowed
      obtain ⟨seconds, found, read⟩ := bind_eq_ok read
      cases read
      refine ⟨?_, ?_, before.default⟩
      · intro held member
        rcases Dict.mem_of_mem_set member with earlier | rfl
        · exact before.types held earlier
        · exact allowed
      · intro held member
        rcases Dict.mem_of_mem_set member with earlier | rfl
        · exact before.windows held earlier
        · exact window_nonNegative found
    · cases read

theorem readEntries_readOf (before : ReadOf python engine stated)
    (read : entries.foldlM (readEntry python context engine) stated = .ok after) : ReadOf python engine after := by
  induction entries generalizing stated with
  | nil =>
    cases read
    exact before
  | cons entry rest ih =>
    rw [List.foldlM_cons] at read
    obtain ⟨next, first, later⟩ := bind_eq_ok read
    exact ih (readEntry_readOf before first) later

/-- An accepted retention: one window that is not kept, or an object's. -/
inductive Accepted (python : Python) (engine : String) : Retention → Prop
  | uniform {seconds : Int} (positive : 0 ≤ seconds) : Accepted python engine ⟨.empty, some seconds, true⟩
  | object {stated : Stated} (read : ReadOf python engine stated) :
      Accepted python engine ⟨stated.windows, stated.default, false⟩

theorem parseObject_accepted (parsed : parseObject python context engine entries = .ok retention) :
    ∃ stated, ReadOf python engine stated ∧ retention = ⟨stated.windows, stated.default, false⟩ := by
  obtain ⟨stated, read, rest⟩ := bind_eq_ok parsed
  have start : ReadOf python engine ⟨.empty, some defaultSeconds, false⟩ := by
    refine ⟨?_, ?_, ?_⟩
    · intro entry member
      cases member
    · intro entry member
      cases member
    · intro seconds same
      rw [← Option.some.inj same]
      decide
  refine ⟨stated, readEntries_readOf start read, ?_⟩
  split at rest
  · cases rest
  · cases rest
    rfl

theorem longest_nonneg (windows : ∀ entry ∈ retention.windows.entries, NonNegative entry.2)
    (default : NonNegative retention.default) : 0 ≤ retention.longest := by
  unfold Retention.longest
  dsimp only
  split
  · decide
  · cases most : (((retention.windows.entries.filter fun entry => entry.1 ≠ "CERT").map Prod.snd ++
        [retention.default]).filterMap id).max? with
    | none => exact le_refl 0
    | some seconds =>
      obtain ⟨held, among, same⟩ := List.mem_filterMap.mp (List.max?_mem most)
      have stated : held = some seconds := same
      rcases List.mem_append.mp among with ofType | ofDefault
      · obtain ⟨entry, inEntries, rfl⟩ := List.mem_map.mp ofType
        exact windows entry (List.mem_of_mem_filter inEntries) seconds stated
      · rw [List.mem_singleton.mp ofDefault] at stated
        exact default seconds stated

theorem map_eq_ok {change : α → β} (ok : first.map change = .ok result) :
    ∃ value, first = .ok value ∧ change value = result := by
  cases first with
  | error failure => cases ok
  | ok value => exact ⟨value, rfl, Except.ok.inj ok⟩

theorem rawOf_factor {raw : Json} {source : String} {factor : Int} (found : rawOf entry = some (raw, source, factor)) :
    0 ≤ factor := by
  obtain ⟨stated, member, held⟩ := List.exists_of_findSome?_eq_some found
  split at held
  · cases held
  · cases held
    simp only [legacyFields, List.mem_cons, List.not_mem_nil, or_false, Prod.mk.injEq] at member
    omega

theorem parse_nonneg {seconds : Int} (parsed : parse python entry context required = .ok seconds) : 0 ≤ seconds := by
  unfold parse at parsed
  split at parsed
  · split at parsed
    · cases parsed
    · cases parsed
      decide
  · obtain ⟨retention, object, rfl⟩ := map_eq_ok parsed
    obtain ⟨stated, read, rfl⟩ := parseObject_accepted object
    exact longest_nonneg read.windows read.default
  · rename_i raw source factor _ found
    split at parsed
    · cases parsed
    · cases parsed
    · split at parsed
      · cases parsed
      · rename_i value _ notLess
        cases parsed
        exact mul_nonneg (not_lt.mp notLess) (rawOf_factor found)

theorem accepted_of_parsePerType (parsed : parsePerType python entry context engine required = .ok retention) :
    Accepted python engine retention := by
  unfold parsePerType at parsed
  split at parsed
  · obtain ⟨stated, read, rfl⟩ := parseObject_accepted parsed
    exact .object read
  · obtain ⟨seconds, number, rfl⟩ := map_eq_ok parsed
    exact .uniform (parse_nonneg number)

/-! ## What is written is read back -/

theorem window_shown (path : String) {stated : Option Int} (nonNegative : NonNegative stated) :
    window python path (Retention.shown stated) = .ok stated := by
  cases stated with
  | none =>
    have keep : python.lower (strip keepWord) = keepWord := by
      rw [python.lower_ascii _ (by decide)]
      decide
    simp [window, Retention.shown, isKeep, keep]
  | some seconds =>
    have notLess := not_lt.mpr (nonNegative seconds rfl)
    simp [window, Retention.shown, isKeep, Python.int, notLess]

theorem fileType_spelling (known : kind ∈ allFileTypes) :
    strip kind = kind ∧ python.lower kind ≠ defaultKey ∧ python.upper kind = kind := by
  have ascii : ∀ kind ∈ allFileTypes, isAscii kind = true ∧ strip kind = kind ∧ asciiLower kind ≠ defaultKey ∧
      asciiUpper kind = kind := by decide
  obtain ⟨letters, stripped, lower, upper⟩ := ascii kind known
  rw [python.lower_ascii _ letters, python.upper_ascii _ letters]
  exact ⟨stripped, lower, upper⟩

theorem mem_allFileTypes (allowed : kind ∈ allowedTypes python engine) : kind ∈ allFileTypes := by
  unfold allowedTypes at allowed
  cases found : engineFileTypes.lookup (engineOf python engine) with
  | none =>
    rw [found] at allowed
    exact allowed
  | some types =>
    rw [found] at allowed
    obtain ⟨front, back, split, -⟩ := List.lookup_eq_some_iff.mp found
    exact List.mem_flatMap.mpr ⟨_, split ▸ List.mem_append_right front List.mem_cons_self, allowed⟩

theorem readEntry_shown (stated : Stated) (allowed : kind ∈ allowedTypes python engine) (nonNegative : NonNegative held) :
    readEntry python context engine stated (kind, Retention.shown held) =
      .ok { stated with windows := stated.windows.set kind held } := by
  obtain ⟨stripped, apart, upper⟩ := @fileType_spelling python kind (mem_allFileTypes allowed)
  unfold readEntry
  dsimp only
  rw [stripped, if_neg apart, upper, if_pos allowed, window_shown _ nonNegative]
  rfl

theorem readEntries_shown {entries : List (String × Option Int)} (stated : Stated)
    (allowed : ∀ entry ∈ entries, entry.1 ∈ allowedTypes python engine)
    (nonNegative : ∀ entry ∈ entries, NonNegative entry.2) :
    (entries.map fun entry => (entry.1, Retention.shown entry.2)).foldlM (readEntry python context engine) stated =
      .ok { stated with windows := stated.windows.update entries } := by
  induction entries generalizing stated with
  | nil => rfl
  | cons entry rest ih =>
    rw [List.map_cons, List.foldlM_cons,
      readEntry_shown stated (allowed entry List.mem_cons_self) (nonNegative entry List.mem_cons_self)]
    exact ih _ (fun other member => allowed other (List.mem_cons_of_mem _ member))
      fun other member => nonNegative other (List.mem_cons_of_mem _ member)

theorem readEntry_default (stated : Stated) (nonNegative : NonNegative held) :
    readEntry python context engine stated (defaultKey, Retention.shown held) =
      .ok { stated with default := held, hasDefault := true } := by
  have stripped : strip defaultKey = defaultKey := by decide
  have lower : python.lower defaultKey = defaultKey := by
    rw [python.lower_ascii _ (by decide)]
    decide
  unfold readEntry
  dsimp only
  rw [stripped, if_pos lower, window_shown _ nonNegative]
  rfl

theorem set_of_absent {name : String} (absent : ∀ entry ∈ record, entry.1 ≠ name) (value : Json) :
    PyValues.set record name value = record ++ [(name, value)] := by
  induction record with
  | nil => rfl
  | cons entry rest ih =>
    rw [PyValues.set, if_neg (absent entry List.mem_cons_self),
      ih fun other member => absent other (List.mem_cons_of_mem _ member), List.cons_append]

theorem update_empty (windows : Dict String (Option Int)) : Dict.empty.update windows.entries = windows := by
  obtain ⟨entries, nodup⟩ := windows
  have same := @Dict.entries_update _ _ _ (Dict.empty : Dict String (Option Int)) entries nodup
  generalize Dict.empty.update entries = updated at same
  obtain ⟨held, distinct⟩ := updated
  simp only [Dict.empty, List.nil_append] at same
  subst same
  rfl

theorem parseObject_asConfig (read : ReadOf python engine stated) :
    ∃ entries, Retention.asConfig ⟨stated.windows, stated.default, false⟩ = .object entries ∧
      parseObject python context engine entries = .ok ⟨stated.windows, stated.default, false⟩ := by
  have apart : ∀ entry ∈ stated.windows.entries.map fun entry => (entry.1, Retention.shown entry.2),
      entry.1 ≠ defaultKey := by
    intro shown member same
    obtain ⟨entry, inWindows, rfl⟩ := List.mem_map.mp member
    have known := mem_allFileTypes (read.types entry inWindows)
    have others : defaultKey ∉ allFileTypes := by decide
    exact others (same ▸ known)
  refine ⟨_, rfl, ?_⟩
  unfold parseObject
  rw [set_of_absent apart, List.foldlM_append, readEntries_shown _ read.types read.windows]
  change (readEntry python context engine _ _ >>= fun stated => pure stated) >>= _ = _
  rw [readEntry_default _ read.default, update_empty]
  rfl

theorem parsePerType_of_stated (accepted : Accepted python engine retention)
    (stated : get record fieldName = retention.asConfig) (context : String) (required : Bool) :
    parsePerType python record context engine required = .ok retention := by
  unfold parsePerType
  rw [stated]
  cases accepted with
  | uniform positive =>
    rename_i seconds
    have notLess := not_lt.mpr positive
    have config : Retention.asConfig ⟨.empty, some seconds, true⟩ = .int seconds := rfl
    rw [config] at stated ⊢
    have raw : rawOf record = some (.int seconds, fieldName, 1) := by
      unfold rawOf
      rw [List.findSome?_cons, stated]
      rfl
    unfold parse
    rw [raw]
    simp only [Python.int]
    rw [if_neg notLess, mul_one]
    rfl
  | object read =>
    obtain ⟨entries, config, parsed⟩ := @parseObject_asConfig python context engine _ read
    rw [config]
    exact parsed

/-- A retention written into a record is read back from it, for the engine it was read for. -/
theorem retention_round_trip {entry : Record} {context engine : String} {required : Bool} {retention : Retention}
    (parsed : parsePerType python entry context engine required = .ok retention) (record : Record) (again : String)
    (demanded : Bool) :
    ∃ back, parsePerType python (PyValues.set record fieldName retention.asConfig) again engine demanded = .ok back ∧
      back = retention ∧ windowsByLevel python back engine = windowsByLevel python retention engine := by
  have stated : get (PyValues.set record fieldName retention.asConfig) fieldName = retention.asConfig := by
    rw [get_set, if_pos rfl]
  exact ⟨retention, parsePerType_of_stated (accepted_of_parsePerType parsed) stated again demanded, rfl, rfl⟩

end Accepted

/-- `{"full": "keep", "default": 691200}` of a SQL Server entry. -/
def statedObject : Record :=
  [(fieldName, .object [("full", .string "keep"), (defaultKey, .int defaultSeconds)])]

theorem retention_round_trip_object :
    ∃ retention, parsePerType asciiPython statedObject "entry" "mssql" true = .ok retention ∧
      ∃ back, parsePerType asciiPython [(fieldName, retention.asConfig)] "entry" "mssql" true = .ok back ∧
        back = retention ∧ windowsByLevel asciiPython back "mssql" = windowsByLevel asciiPython retention "mssql" := by
  obtain ⟨retention, parsed⟩ : ∃ retention, parsePerType asciiPython statedObject "entry" "mssql" true = .ok retention :=
    ⟨_, rfl⟩
  exact ⟨retention, parsed, retention_round_trip parsed [] "entry" true⟩

end DbaBrain.Lib.CleanupRetention
